import Chip8.Proofs.Stepping

/-!
# Where execution goes

The program counter after an instruction that is done. A jump, a call and a return go where they say, a skip goes one
instruction further if its condition holds, and a wait for a key goes back as long as no key is down. All others leave
the program counter where fetching has put it.
-/
namespace Chip8.Session

/-- The program counter after an instruction that was fetched from `here`. -/
def pcAfter (s : Session) (i : Instruction) (here : Address) : Address :=
  match i with
  | .jump nnn => nnn
  | .call nnn => nnn
  | .ret => s.machine.stack.frames.headD s.machine.pc
  | .jumpOffset nnn => UInt16.ofNat (nnn.toNat + (s.machine.registers.get 0).toNat)
  | .waitKey _ => if s.query.1 = none then here else s.machine.pc
  | i => if s.skips i then UInt16.ofNat (s.machine.pc.toNat + 2) else s.machine.pc

variable {s t : Session} {i : Instruction} {here : Address}

theorem pcAfter_ret (s : Session) (here : Address) :
    s.pcAfter .ret here = s.machine.stack.frames.headD s.machine.pc := rfl

theorem pcAfter_jumpOffset (s : Session) (nnn here : Address) :
    s.pcAfter (.jumpOffset nnn) here =
      UInt16.ofNat (nnn.toNat + (s.machine.registers.get 0).toNat) := rfl

theorem pcAfter_waitKey (s : Session) (x : UInt8) (here : Address) :
    s.pcAfter (.waitKey x) here = if s.query.1 = none then here else s.machine.pc := rfl

theorem jumpBy_pc {start : Address} {offset : Nat} (h : s.jumpBy start offset = .done t) :
    t.machine.pc = UInt16.ofNat (start.toNat + offset) := by
  by_cases hlt : start.toNat + offset < 65536
  · rw [jumpBy_of_lt s hlt] at h
    cases h
    rfl
  · rw [jumpBy_of_le s (Nat.not_lt.mp hlt)] at h
    cases h

theorem skipIf_pc {condition : Bool} (h : s.skipIf condition = .done t) :
    t.machine.pc =
      if condition then UInt16.ofNat (s.machine.pc.toNat + 2) else s.machine.pc := by
  cases condition with
  | true => exact jumpBy_pc h
  | false =>
    cases h
    rfl

theorem store_pc {values : List UInt8} (h : s.store values here = .done t) :
    t.machine.pc = s.machine.pc := by
  unfold store at h
  cases hw : s.machine.memory.write s.machine.registers.index.toNat values with
  | ok memory =>
    rw [hw] at h
    cases h
    rfl
  | error e =>
    rw [hw] at h
    cases h

theorem read_pc {address length : Nat} {next : List UInt8 → Session}
    (h : (match s.machine.memory.read address length with
      | .ok bytes => Outcome.done (next bytes)
      | .error e => Outcome.faulted (e.fault here) s) = .done t)
    (hnext : ∀ bytes, (next bytes).machine.pc = s.machine.pc) : t.machine.pc = s.machine.pc := by
  cases hr : s.machine.memory.read address length with
  | ok bytes =>
    rw [hr] at h
    cases h
    exact hnext bytes
  | error e =>
    rw [hr] at h
    cases h

theorem execute_pc (h : s.execute i here = .done t) : t.machine.pc = s.pcAfter i here := by
  cases i with
  | ret =>
    cases hs : s.machine.stack.frames with
    | nil =>
      simp only [execute, CallStack.pop?, hs] at h
      cases h
    | cons a rest =>
      simp only [execute, CallStack.pop?, hs] at h
      cases h
      rw [pcAfter_ret, hs, List.headD_cons]
  | skipIfEqual | skipIfNotEqual | skipIfSame | skipIfDifferent => exact skipIf_pc h
  | skipIfKey | skipIfNotKey => exact skipIf_pc (s := s.query.2) h
  | jumpOffset nnn => exact jumpBy_pc h
  | waitKey x =>
    cases hk : s.keypad.answer s.keypad.queries with
    | none =>
      simp only [execute, query, Keypad.query, hk] at h
      cases h
      simp only [pcAfter_waitKey, query, Keypad.query, hk]
      rfl
    | some key =>
      simp only [execute, query, Keypad.query, hk] at h
      cases h
      simp only [pcAfter_waitKey, query, Keypad.query, hk]
      rfl
  | loadGlyph x =>
    obtain ⟨glyph, hg⟩ := glyphAddress_isSome s.machine.registers x
    simp only [execute, hg] at h
    cases h
    rfl
  | draw x y n => exact read_pc h fun _ => rfl
  | loadRegisters x => exact read_pc h fun _ => rfl
  | storeDecimal x => exact store_pc h
  | storeRegisters x =>
    simp only [execute] at h
    cases hv : s.machine.registers.upTo? x with
    | some values =>
      rw [hv] at h
      exact store_pc h
    | none =>
      rw [hv] at h
      cases h
  | _ =>
    cases h
    rfl

end Chip8.Session
