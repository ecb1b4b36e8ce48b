import Chip8.Machine.Execute

/-!
# What an execution comes to

An instruction is refused with a fault, or asks for something that the instruction set cannot express and
traps, or is done. Which of the three it is can be read off the session before the instruction. Nothing here speaks
about words: the operands are those of any instruction, decoded or built by hand.
-/
namespace Chip8

/-- How many bytes an instruction reads or writes at the address in the index register. -/
def Instruction.reach? : Instruction → Option Nat
  | draw _ _ n => some n.toNat
  | storeDecimal _ => some 3
  | storeRegisters x => some (x.toNat + 1)
  | loadRegisters x => some (x.toNat + 1)
  | _ => none

/-- The fault of an access to `length` bytes at the address in the index register. -/
def Machine.overreach? (m : Machine) (length : Nat) (here : Address) : Option Fault :=
  if Memory.size < m.registers.index.toNat + length then
    some (.addressOutOfBounds (max m.registers.index.toNat Memory.size) here)
  else none

/-- The fault with which a machine refuses an instruction, if it does. -/
def Machine.refusal? (m : Machine) (i : Instruction) (here : Address) : Option Fault :=
  if i = .ret then
    if m.stack.isEmpty then some (.stackUnderflow here) else none
  else i.reach?.bind fun length => m.overreach? length here

namespace Machine

variable {m : Machine} {i : Instruction} {here : Address} {n : Nat}

theorem overreach_of_le (h : m.registers.index.toNat + n ≤ Memory.size) :
    m.overreach? n here = none := if_neg (Nat.not_lt.mpr h)

theorem overreach_of_lt (h : Memory.size < m.registers.index.toNat + n) :
    m.overreach? n here =
      some (.addressOutOfBounds (max m.registers.index.toNat Memory.size) here) := if_pos h

theorem refusal_of_reach (h : i.reach? = some n) : m.refusal? i here = m.overreach? n here := by
  have hret : i ≠ .ret := by
    rintro rfl
    cases h
  rw [refusal?, if_neg hret, h]
  rfl

end Machine

namespace Session

/-- Whether an instruction is a skip whose condition holds. -/
def skips (s : Session) (i : Instruction) : Bool :=
  let r := s.machine.registers
  match i with
  | .skipIfEqual x nn => r.get x == nn
  | .skipIfNotEqual x nn => r.get x != nn
  | .skipIfSame x y => r.get x == r.get y
  | .skipIfDifferent x y => r.get x != r.get y
  | .skipIfKey x => s.query.1 == some (r.get x)
  | .skipIfNotKey x => s.query.1 != some (r.get x)
  | _ => false

/-- Whether an instruction asks for registers past VF or for an address of more than sixteen bits. -/
def Traps (s : Session) (i : Instruction) : Prop :=
  match i with
  | .storeRegisters x => 15 < x.toNat
  | .jumpOffset nnn => 65535 < nnn.toNat + (s.machine.registers.get 0).toNat
  | i => s.skips i = true ∧ 65533 < s.machine.pc.toNat

/-- The three ways an execution can end, each with what the session before it says about it. -/
def Settles (s : Session) (i : Instruction) (here : Address) : Outcome Session → Prop
  | .done _ => ¬ s.Traps i ∧ s.machine.refusal? i here = none
  | .faulted f t => ¬ s.Traps i ∧ s.machine.refusal? i here = some f ∧ t = s
  | .trapped _ _ => s.Traps i

theorem jumpBy_of_lt (s : Session) {start : Address} {offset : Nat}
    (h : start.toNat + offset < 65536) :
    s.jumpBy start offset = .done (s.setPc (UInt16.ofNat (start.toNat + offset))) := by
  rw [jumpBy, Address.plus?, if_pos h]

theorem jumpBy_of_le (s : Session) {start : Address} {offset : Nat}
    (h : 65536 ≤ start.toNat + offset) :
    s.jumpBy start offset = .trapped .addressOverflow s := by
  rw [jumpBy, Address.plus?, if_neg (Nat.not_lt.mpr h)]

variable {s u : Session} {i : Instruction} {here : Address}

/-- A skip may have asked the keypad before, so it is made from a session `u` with the same program counter. -/
theorem settles_skip (hpc : u.machine.pc = s.machine.pc)
    (htraps : s.Traps i = (s.skips i = true ∧ 65533 < s.machine.pc.toNat))
    (hrefusal : s.machine.refusal? i here = none) :
    s.Settles i here (u.skipIf (s.skips i)) := by
  unfold skipIf
  by_cases hc : s.skips i = true
  · rw [if_pos hc]
    by_cases hp : s.machine.pc.toNat + 2 < 65536
    · rw [jumpBy_of_lt _ (by rw [hpc]; exact hp)]
      refine ⟨?_, hrefusal⟩
      rw [htraps]
      omega
    · rw [jumpBy_of_le _ (by rw [hpc]; omega)]
      change s.Traps i
      rw [htraps]
      exact ⟨hc, by omega⟩
  · rw [if_neg hc]
    refine ⟨?_, hrefusal⟩
    rw [htraps]
    exact fun h => hc h.1

theorem settles_store {values : List UInt8} (htraps : ¬ s.Traps i)
    (hrefusal : s.machine.refusal? i here = s.machine.overreach? values.length here) :
    s.Settles i here (s.store values here) := by
  unfold store
  by_cases h : s.machine.registers.index.toNat + values.length ≤ Memory.size
  · rw [Memory.write_of_le _ h]
    exact ⟨htraps, hrefusal.trans (Machine.overreach_of_le h)⟩
  · have hlt := Nat.lt_of_not_le h
    rw [Memory.write_of_lt _ hlt]
    exact ⟨htraps, hrefusal.trans (Machine.overreach_of_lt hlt), rfl⟩

theorem glyphAddress_isSome (r : Registers) (x : UInt8) :
    ∃ glyph, r.glyphAddress? x = some glyph := by
  have hx : (r.get x).toNat % 16 < 16 := Nat.mod_lt _ (by decide)
  have hb : (UInt16.ofNat Font.base).toNat = 80 := by decide
  refine ⟨_, if_pos ?_⟩
  rw [hb, Font.glyphLength]
  omega

/-- A read of `length` bytes at the index either fits or is refused. -/
theorem settles_read {length : Nat} {next : List UInt8 → Session} (htraps : ¬ s.Traps i)
    (hrefusal : s.machine.refusal? i here = s.machine.overreach? length here) :
    s.Settles i here
      (match s.machine.memory.read s.machine.registers.index.toNat length with
      | .ok bytes => .done (next bytes)
      | .error e => .faulted (e.fault here) s) := by
  by_cases h : s.machine.registers.index.toNat + length ≤ Memory.size
  · rw [Memory.read_of_le _ h]
    exact ⟨htraps, hrefusal.trans (Machine.overreach_of_le h)⟩
  · have hlt := Nat.lt_of_not_le h
    rw [Memory.read_of_lt _ hlt]
    exact ⟨htraps, hrefusal.trans (Machine.overreach_of_lt hlt), rfl⟩

/-- Every instruction ends in the way that the session before it tells. -/
theorem execute_settles (s : Session) (i : Instruction) (here : Address) :
    s.Settles i here (s.execute i here) := by
  have quiet : ∀ {b : Bool}, b = false → ¬ (b = true ∧ 65533 < s.machine.pc.toNat) := by
    rintro b rfl ⟨h, _⟩
    exact Bool.false_ne_true h
  cases i with
  | ret =>
    cases hs : s.machine.stack.frames with
    | nil =>
      simp only [execute, CallStack.pop?, hs]
      exact ⟨quiet rfl, by simp [Machine.refusal?, CallStack.isEmpty, hs], rfl⟩
    | cons a rest =>
      simp only [execute, CallStack.pop?, hs]
      exact ⟨quiet rfl, by simp [Machine.refusal?, CallStack.isEmpty, hs]⟩
  | skipIfEqual x nn => exact settles_skip rfl rfl rfl
  | skipIfNotEqual x nn => exact settles_skip rfl rfl rfl
  | skipIfSame x y => exact settles_skip rfl rfl rfl
  | skipIfDifferent x y => exact settles_skip rfl rfl rfl
  | skipIfKey x => exact settles_skip (u := s.query.2) rfl rfl rfl
  | skipIfNotKey x => exact settles_skip (u := s.query.2) rfl rfl rfl
  | jumpOffset nnn =>
    by_cases h : nnn.toNat + (s.machine.registers.get 0).toNat < 65536
    · rw [execute, jumpBy_of_lt s h]
      exact ⟨by simp only [Traps]; omega, rfl⟩
    · rw [execute, jumpBy_of_le s (Nat.not_lt.mp h)]
      simp only [Settles, Traps]
      omega
  | waitKey x =>
    cases hk : s.keypad.answer s.keypad.queries with
    | none => simp only [execute, query, Keypad.query, hk]; exact ⟨quiet rfl, rfl⟩
    | some key => simp only [execute, query, Keypad.query, hk]; exact ⟨quiet rfl, rfl⟩
  | loadGlyph x =>
    obtain ⟨glyph, hg⟩ := glyphAddress_isSome s.machine.registers x
    simp only [execute, hg]
    exact ⟨quiet rfl, rfl⟩
  | draw x y n => exact settles_read (quiet rfl) rfl
  | loadRegisters x => exact settles_read (quiet rfl) rfl
  | storeDecimal x => exact settles_store (quiet rfl) rfl
  | storeRegisters x =>
    by_cases h : x.toNat < 16
    · have hl : (s.machine.registers.toList.take (x.toNat + 1)).length = x.toNat + 1 := by
        simp [Registers.toList]
        omega
      simp only [execute, Registers.upTo?, if_pos h]
      refine settles_store ?_ (by rw [hl]; rfl)
      simp only [Traps]
      omega
    · simp only [execute, Registers.upTo?, if_neg h, Settles, Traps]
      omega
  | _ => exact ⟨quiet rfl, rfl⟩

theorem execute_faulted_iff {t : Session} {f : Fault} :
    s.execute i here = .faulted f t ↔ ¬ s.Traps i ∧ s.machine.refusal? i here = some f ∧ t = s := by
  have hs := s.execute_settles i here
  constructor
  · intro h
    rwa [h] at hs
  · rintro ⟨htraps, hrefusal, rfl⟩
    cases ho : t.execute i here with
    | done u =>
      rw [ho] at hs
      rw [hs.2] at hrefusal
      cases hrefusal
    | faulted g u =>
      rw [ho] at hs
      obtain ⟨_, hg, rfl⟩ := hs
      rw [hg] at hrefusal
      cases hrefusal
      rfl
    | trapped _ u =>
      rw [ho] at hs
      exact absurd hs htraps

theorem execute_done_iff :
    (∃ t, s.execute i here = .done t) ↔ ¬ s.Traps i ∧ s.machine.refusal? i here = none := by
  have hs := s.execute_settles i here
  constructor
  · rintro ⟨t, h⟩
    rwa [h] at hs
  · rintro ⟨htraps, hrefusal⟩
    cases ho : s.execute i here with
    | done t => exact ⟨t, rfl⟩
    | faulted f t =>
      rw [ho] at hs
      rw [hs.2.1] at hrefusal
      cases hrefusal
    | trapped _ t =>
      rw [ho] at hs
      exact absurd hs htraps

end Session

end Chip8
