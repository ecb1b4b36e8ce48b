import Chip8.Proofs.ControlFlow
import Chip8.Proofs.Frame
import Chip8.Proofs.Setting

/-!
# What an instruction leaves

An instruction that is done leaves each part of the session as a function of its own says, and all these functions read
the session before the instruction. What an instruction does to a part of the session can be read off the function of
that part alone, so none of what follows has to go through the execution again.
-/
namespace Chip8

/-- Whether an instruction asks the keypad. -/
def Instruction.asksKey : Instruction → Bool
  | skipIfKey _ | skipIfNotKey _ | waitKey _ => true
  | _ => false

namespace Machine

/-- The first `n` bytes from the address in the index register on. -/
def bytesAtIndex (m : Machine) (n : Nat) : List UInt8 :=
  (List.range n).map fun j => m.memory.byte (m.registers.index.toNat + j)

theorem length_bytesAtIndex (m : Machine) (n : Nat) : (m.bytesAtIndex n).length = n := by
  rw [bytesAtIndex, List.length_map, List.length_range]

/-- The screen with the sprite at the index drawn on it. -/
def drawing (m : Machine) (x y n : UInt8) : Drawing :=
  m.screen.draw (m.registers.get x) (m.registers.get y) (m.bytesAtIndex n.toNat)

/-- The bytes that an instruction writes from the index on. -/
def stored (m : Machine) : Instruction → List UInt8
  | .storeDecimal x => m.registers.decimal x
  | .storeRegisters x => m.registers.toList.take (x.toNat + 1)
  | _ => []

/-- The memory after an instruction. -/
def memoryAfter (m : Machine) (i : Instruction) : Memory :=
  m.memory.putAll m.registers.index.toNat (m.stored i)

/-- The screen after an instruction. -/
def screenAfter (m : Machine) : Instruction → Screen
  | .clearScreen => Screen.blank
  | .draw x y n => (m.drawing x y n).screen
  | _ => m.screen

/-- The source of random numbers after an instruction. -/
def randomAfter (m : Machine) : Instruction → Random.Source
  | .random _ _ => m.random.next.2
  | _ => m.random

end Machine

namespace Session

/-- The keypad after an instruction. -/
def keypadAfter (s : Session) (i : Instruction) : Keypad :=
  if i.asksKey then s.keypad.query.2 else s.keypad

/-- The registers after an instruction. -/
def registersAfter (s : Session) (i : Instruction) : Registers :=
  let m := s.machine
  let r := m.registers
  match i with
  | .load x nn => r.set x nn
  | .add x nn => r.addImmediate x nn
  | .move x y => r.move x y
  | .or x y => r.or x y
  | .and x y => r.and x y
  | .xor x y => r.xor x y
  | .addRegister x y => r.add x y
  | .sub x y => r.sub x y
  | .shiftRight x => r.shiftRight x
  | .subReversed x y => r.subReversed x y
  | .shiftLeft x => r.shiftLeft x
  | .loadIndex nnn => r.setIndex nnn
  | .random x nn => r.set x (m.random.next.1 &&& nn)
  | .draw x y n => r.setFlag (m.drawing x y n).collision.toUInt8
  | .readDelay x => r.set x m.timers.delay
  | .waitKey x => s.query.1.elim r fun key => r.set x key
  | .addIndex x => r.addIndex x
  | .loadGlyph x => (r.glyphAddress? x).elim r fun glyph => r.setIndex glyph
  | .loadRegisters x => r.setAll 0 (m.bytesAtIndex (x.toNat + 1))
  | _ => r

/-- The session that an instruction leaves if it is done. -/
def effect (s : Session) (i : Instruction) (here : Address) : Session where
  machine :=
    { memory := s.machine.memoryAfter i
      registers := s.registersAfter i
      stack := s.machine.stackAfter i
      screen := s.machine.screenAfter i
      timers := s.machine.timers.after s.machine.registers i
      random := s.machine.randomAfter i
      pc := s.pcAfter i here
      cycles := s.machine.cycles
      config := s.machine.config }
  keypad := s.keypadAfter i

variable {s t u : Session} {i : Instruction} {here : Address}

/-- What moves only the program counter, from a session `u` that has the effect but for the program counter. -/
theorem eq_effect_of_setPc (hu : ∀ pc, u.setPc pc = (s.effect i here).setPc pc)
    (h : s.execute i here = .done t) (ht : ∃ pc, t = u.setPc pc) : t = s.effect i here := by
  obtain ⟨pc, rfl⟩ := ht
  have hpc : pc = s.pcAfter i here := execute_pc h
  rw [hu, hpc]
  rfl

theorem skipIf_done {condition : Bool} (h : s.skipIf condition = .done t) :
    ∃ pc, t = s.setPc pc := by
  obtain ⟨pc, hpc⟩ := s.skipIf_state condition
  rw [h] at hpc
  exact ⟨pc, hpc⟩

theorem store_done {values : List UInt8} (h : s.store values here = .done t) :
    t = { s with machine := { s.machine with
      memory := s.machine.memory.putAll s.machine.registers.index.toNat values } } := by
  unfold store at h
  by_cases hfits : s.machine.registers.index.toNat + values.length ≤ Memory.size
  · rw [Memory.write_of_le _ hfits] at h
    cases h
    rfl
  · rw [Memory.write_of_lt _ (Nat.lt_of_not_le hfits)] at h
    cases h

theorem read_done {n : Nat} {next : List UInt8 → Session}
    (h : (match s.machine.memory.read s.machine.registers.index.toNat n with
      | .ok bytes => Outcome.done (next bytes)
      | .error e => Outcome.faulted (e.fault here) s) = .done t) :
    t = next (s.machine.bytesAtIndex n) := by
  by_cases hfits : s.machine.registers.index.toNat + n ≤ Memory.size
  · rw [Memory.read_of_le _ hfits] at h
    cases h
    rfl
  · rw [Memory.read_of_lt _ (Nat.lt_of_not_le hfits)] at h
    cases h

/-- An instruction that is done has its effect. -/
theorem execute_done_eq (h : s.execute i here = .done t) : t = s.effect i here := by
  cases i with
  | ret =>
    have hstack := (s.execute_framed .ret here).stack
    rw [h] at hstack
    have hpc := execute_pc h
    simp only [execute] at h
    cases hpop : s.machine.stack.pop? with
    | none =>
      rw [hpop] at h
      cases h
    | some p =>
      rw [hpop] at h
      cases h
      rw [effect, ← hpc, ← hstack]
      rfl
  | skipIfEqual | skipIfNotEqual | skipIfSame | skipIfDifferent =>
    exact eq_effect_of_setPc (u := s) (fun _ => rfl) h (skipIf_done h)
  | skipIfKey | skipIfNotKey =>
    exact eq_effect_of_setPc (u := s.query.2) (fun _ => rfl) h (skipIf_done h)
  | jumpOffset nnn =>
    obtain ⟨pc, hpc⟩ := s.jumpBy_state nnn (s.machine.registers.get 0).toNat
    have hjump : s.jumpBy nnn (s.machine.registers.get 0).toNat = .done t := h
    rw [hjump] at hpc
    exact eq_effect_of_setPc (u := s) (fun _ => rfl) h ⟨pc, hpc⟩
  | waitKey x =>
    have hkey : s.query.1 = s.keypad.answer s.keypad.queries := rfl
    cases hk : s.keypad.answer s.keypad.queries with
    | none =>
      simp only [execute, query, Keypad.query, hk] at h
      cases h
      simp only [effect, registersAfter, pcAfter_waitKey, hkey, hk]
      rfl
    | some key =>
      simp only [execute, query, Keypad.query, hk] at h
      cases h
      simp only [effect, registersAfter, pcAfter_waitKey, hkey, hk]
      rfl
  | loadGlyph x =>
    obtain ⟨glyph, hg⟩ := glyphAddress_isSome s.machine.registers x
    simp only [execute, hg] at h
    cases h
    simp only [effect, registersAfter, hg]
    rfl
  | draw x y n => exact read_done h
  | loadRegisters x => exact read_done h
  | storeDecimal x => exact store_done h
  | storeRegisters x =>
    by_cases hx : x.toNat < 16
    · simp only [execute, Registers.upTo?, if_pos hx] at h
      exact store_done h
    · simp only [execute, Registers.upTo?, if_neg hx] at h
      cases h
  | _ =>
    cases h
    rfl

/-- A step that is done has the effect of its instruction, and counts it. -/
theorem step_done_eq (h : s.step = .done t) : ∃ w i,
    s.machine.fetch = .ok (w, i) ∧ t = (s.ahead.effect i s.machine.pc).count := by
  obtain ⟨w, i, u, hfetch, he, rfl⟩ := step_done h
  exact ⟨w, i, hfetch, congrArg count (execute_done_eq he)⟩

end Session

end Chip8
