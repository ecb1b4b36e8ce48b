import Chip8.Proofs.Stepping

/-!
# Which fault, and when

A step can fail while it fetches, while it decodes and while it executes, in this order. The conditions below are read
off the number of the word and not off its instruction, and between them they leave no other way to fail.
-/
namespace Chip8

/-- A word that touches `n` bytes at the index: Dxyn touches n, Fx33 three, Fx55 and Fx65 x + 1. -/
def Word.Reaches (w : Word) (n : Nat) : Prop :=
  (w.toNat / 4096 = 0xD ∧ n = w.toNat % 16) ∨
    (w.toNat / 4096 = 0xF ∧ w.toNat % 256 = 0x33 ∧ n = 3) ∨
    (w.toNat / 4096 = 0xF ∧ (w.toNat % 256 = 0x55 ∨ w.toNat % 256 = 0x65) ∧
      n = w.toNat / 256 % 16 + 1)

namespace Instruction

variable {w : Word} {i : Instruction} {n : Nat}

theorem reach_iff_of_decode (h : decode w = some i) : i.reach? = some n ↔ w.Reaches n := by
  obtain ⟨ho, hx, _, hn⟩ := w.toNat_nibbles
  have hnn := w.toNat_lowByte
  simp only [decode, ho, hnn] at h
  split at h
  all_goals try split at h
  all_goals cases h
  -- The word of each case is known by its digits, and so is what it reaches.
  all_goals simp only [reach?, Word.Reaches, Option.some.injEq, reduceCtorEq, false_iff]
  all_goals omega

theorem decode_of_reaches (h : w.Reaches n) : ∃ i, decode w = some i := by
  obtain ⟨ho, _, _, _⟩ := w.toNat_nibbles
  have hnn := w.toNat_lowByte
  rcases h with ⟨hd, _⟩ | ⟨hf, h33, _⟩ | ⟨hf, h55 | h65, _⟩
  · exact ⟨_, by simp only [decode, ho, hd]; rfl⟩
  · exact ⟨_, by simp only [decode, ho, hnn, hf, h33]; rfl⟩
  · exact ⟨_, by simp only [decode, ho, hnn, hf, h55]; rfl⟩
  · exact ⟨_, by simp only [decode, ho, hnn, hf, h65]; rfl⟩

end Instruction

namespace Machine

/-- A return is next, and there is nowhere to return to. -/
def Underflows (m : Machine) : Prop := m.wordAtPc = 0x00EE ∧ m.stack.frames = []

/-- The word that is next touches bytes past the end of memory. -/
def Overreaches (m : Machine) : Prop :=
  ∃ n, m.wordAtPc.Reaches n ∧ 0x1000 < m.registers.index.toNat + n

variable {m : Machine} {i : Instruction}

theorem fault_of_lt (h : 0xFFE < m.pc.toNat) :
    m.fault? = some (.addressOutOfBounds (max m.pc.toNat 0x1000) m.pc) := by
  rw [fault?, fetch_of_lt h]

theorem fault_of_undecodable (hp : m.pc.toNat ≤ 0xFFE)
    (hd : Instruction.decode m.wordAtPc = none) :
    m.fault? = some (.invalidInstruction m.wordAtPc m.pc) := by
  rw [fault?, fetch_of_undecodable hp hd]

theorem fault_of_underflow (hp : m.pc.toNat ≤ 0xFFE) (hu : m.Underflows) :
    m.fault? = some (.stackUnderflow m.pc) := by
  obtain ⟨hw, hs⟩ := hu
  have hd := Instruction.decode_eq_ret_iff.mpr hw
  rw [fault_of_fetched (fetch_of_decoded hp hd), refusal?, if_pos rfl, if_pos]
  rw [CallStack.isEmpty, hs]
  rfl

/-- A decoded instruction other than a return reaches as far as its word. -/
theorem overreaches_iff_of_decode (hd : Instruction.decode m.wordAtPc = some i) :
    m.Overreaches ↔ ∃ n, i.reach? = some n ∧ 0x1000 < m.registers.index.toNat + n := by
  constructor
  · rintro ⟨n, hr, hlt⟩
    exact ⟨n, (Instruction.reach_iff_of_decode hd).mpr hr, hlt⟩
  · rintro ⟨n, hr, hlt⟩
    exact ⟨n, (Instruction.reach_iff_of_decode hd).mp hr, hlt⟩

theorem fault_of_overreach (hp : m.pc.toNat ≤ 0xFFE) (ho : m.Overreaches) :
    m.fault? = some (.addressOutOfBounds (max m.registers.index.toNat 0x1000) m.pc) := by
  have ⟨_, hw, _⟩ := ho
  obtain ⟨i, hd⟩ := Instruction.decode_of_reaches hw
  obtain ⟨n, hr, hlt⟩ := (overreaches_iff_of_decode hd).mp ho
  rw [fault_of_fetched (fetch_of_decoded hp hd), refusal_of_reach hr]
  exact overreach_of_lt hlt

theorem fault_of_fits (hp : m.pc.toNat ≤ 0xFFE) (hd : Instruction.decode m.wordAtPc ≠ none)
    (hu : ¬ m.Underflows) (ho : ¬ m.Overreaches) : m.fault? = none := by
  obtain ⟨i, hi⟩ := Option.ne_none_iff_exists'.mp hd
  rw [fault_of_fetched (fetch_of_decoded hp hi)]
  cases hr : i.reach? with
  | some n =>
    rw [refusal_of_reach hr]
    apply overreach_of_le
    apply Nat.le_of_not_lt
    intro hlt
    exact ho ((overreaches_iff_of_decode hi).mpr ⟨n, hr, hlt⟩)
  | none =>
    by_cases hret : i = .ret
    · subst hret
      rw [refusal?, if_pos rfl, if_neg]
      intro he
      exact hu ⟨Instruction.decode_eq_ret_iff.mp hi, List.isEmpty_iff.mp he⟩
    · rw [refusal?, if_neg hret, hr]
      rfl

/-- Every fault of a machine that can fetch comes from one of the two later stages. -/
theorem fault_eq_some_iff (hp : m.pc.toNat ≤ 0xFFE) {f : Fault} :
    m.fault? = some f ↔
      (Instruction.decode m.wordAtPc = none ∧ f = .invalidInstruction m.wordAtPc m.pc) ∨
        (m.Underflows ∧ f = .stackUnderflow m.pc) ∨
          (m.Overreaches ∧
            f = .addressOutOfBounds (max m.registers.index.toNat 0x1000) m.pc) := by
  constructor
  · intro h
    by_cases hd : Instruction.decode m.wordAtPc = none
    · rw [fault_of_undecodable hp hd] at h
      exact Or.inl ⟨hd, (Option.some.inj h).symm⟩
    by_cases hu : m.Underflows
    · rw [fault_of_underflow hp hu] at h
      exact Or.inr (Or.inl ⟨hu, (Option.some.inj h).symm⟩)
    by_cases ho : m.Overreaches
    · rw [fault_of_overreach hp ho] at h
      exact Or.inr (Or.inr ⟨ho, (Option.some.inj h).symm⟩)
    rw [fault_of_fits hp hd hu ho] at h
    cases h
  · rintro (⟨hd, rfl⟩ | ⟨hu, rfl⟩ | ⟨ho, rfl⟩)
    · exact fault_of_undecodable hp hd
    · exact fault_of_underflow hp hu
    · exact fault_of_overreach hp ho

theorem fault_eq_none_iff (hp : m.pc.toNat ≤ 0xFFE) :
    m.fault? = none ↔
      Instruction.decode m.wordAtPc ≠ none ∧ ¬ m.Underflows ∧ ¬ m.Overreaches := by
  constructor
  · intro h
    refine ⟨fun hd => ?_, fun hu => ?_, fun ho => ?_⟩
    · have hf := fault_of_undecodable hp hd
      rw [h] at hf
      cases hf
    · have hf := fault_of_underflow hp hu
      rw [h] at hf
      cases hf
    · have hf := fault_of_overreach hp ho
      rw [h] at hf
      cases hf
  · rintro ⟨hd, hu, ho⟩
    exact fault_of_fits hp hd hu ho

/-- A fetch fails at the end of memory and nowhere else, with the first address that does not exist. -/
theorem fetch_out_of_bounds_iff :
    m.fetch = .error (.addressOutOfBounds (max m.pc.toNat 0x1000) m.pc) ↔
      0xFFE < m.pc.toNat := by
  refine ⟨fun h => Nat.lt_of_not_le fun hp => ?_, fetch_of_lt⟩
  cases hd : Instruction.decode m.wordAtPc with
  | none =>
    rw [fetch_of_undecodable hp hd] at h
    cases h
  | some i =>
    rw [fetch_of_decoded hp hd] at h
    cases h

end Machine

namespace Session

theorem step_faulted_self_iff {s : Session} {f : Fault} :
    s.step = .faulted f s ↔ s.machine.fault? = some f := by
  rw [step_faulted_iff]
  exact and_iff_left rfl

/-- The fault of every step, stage by stage. A fetch can fail with the same fault as an execution at the end of
memory, so its own condition is put to the fetch. -/
theorem step_faults_iff (s : Session) :
    (s.machine.fetch =
        .error (.addressOutOfBounds (max s.machine.pc.toNat 0x1000) s.machine.pc) ↔
      0xFFE < s.machine.pc.toNat) ∧
    (0xFFE < s.machine.pc.toNat →
      s.step =
        .faulted (.addressOutOfBounds (max s.machine.pc.toNat 0x1000) s.machine.pc) s) ∧
    (s.machine.pc.toNat ≤ 0xFFE →
      (s.step = .faulted (.invalidInstruction s.machine.wordAtPc s.machine.pc) s ↔
        Instruction.decode s.machine.wordAtPc = none) ∧
      (s.step = .faulted (.stackUnderflow s.machine.pc) s ↔ s.machine.Underflows) ∧
      (s.step = .faulted
          (.addressOutOfBounds (max s.machine.registers.index.toNat 0x1000) s.machine.pc) s ↔
        s.machine.Overreaches) ∧
      ((∃ t, s.step = .done t) ↔
        Instruction.decode s.machine.wordAtPc ≠ none ∧
          ¬ s.machine.Underflows ∧ ¬ s.machine.Overreaches)) ∧
    ∀ f t, s.step = .faulted f t → t = s ∧
      ((0xFFE < s.machine.pc.toNat ∧
          f = .addressOutOfBounds (max s.machine.pc.toNat 0x1000) s.machine.pc) ∨
        (s.machine.pc.toNat ≤ 0xFFE ∧
          ((Instruction.decode s.machine.wordAtPc = none ∧
              f = .invalidInstruction s.machine.wordAtPc s.machine.pc) ∨
            (s.machine.Underflows ∧ f = .stackUnderflow s.machine.pc) ∨
              (s.machine.Overreaches ∧
                f = .addressOutOfBounds (max s.machine.registers.index.toNat 0x1000)
                  s.machine.pc)))) := by
  refine ⟨Machine.fetch_out_of_bounds_iff, ?_, ?_, ?_⟩
  · intro h
    exact step_faulted_self_iff.mpr (Machine.fault_of_lt h)
  · intro hp
    rw [step_faulted_self_iff, step_faulted_self_iff, step_faulted_self_iff, step_done_iff]
    refine ⟨?_, ?_, ?_, Machine.fault_eq_none_iff hp⟩
    · simp [Machine.fault_eq_some_iff hp]
    · simp [Machine.fault_eq_some_iff hp]
    · simp [Machine.fault_eq_some_iff hp]
  · intro f t h
    obtain ⟨hf, rfl⟩ := step_faulted_iff.mp h
    refine ⟨rfl, ?_⟩
    by_cases hp : t.machine.pc.toNat ≤ 0xFFE
    · exact Or.inr ⟨hp, (Machine.fault_eq_some_iff hp).mp hf⟩
    · have hlt := Nat.lt_of_not_le hp
      rw [Machine.fault_of_lt hlt] at hf
      exact Or.inl ⟨hlt, (Option.some.inj hf).symm⟩

/-- A session at an address, with a sprite of no rows to draw at 0x200. -/
def emptySprite (pc index : Address) : Session where
  machine := { Machine.ofSeed 7 with
    memory := Memory.fresh.putAll 0x200 [0xD0, 0x00]
    registers := ⟨Vector.replicate 16 0, index⟩
    pc := pc }
  keypad := Keypad.untouched

/-- Past the last word nothing is fetched; a sprite of no rows fits at the end of memory but not behind it. -/
theorem step_faults_iff_empty_sprite :
    (emptySprite 0xFFF 0).step =
        .faulted (.addressOutOfBounds 0x1000 0xFFF) (emptySprite 0xFFF 0) ∧
      (emptySprite 0x200 0x1001).step =
        .faulted (.addressOutOfBounds 0x1001 0x200) (emptySprite 0x200 0x1001) ∧
      ∃ t, (emptySprite 0x200 0x1000).step = .done t := by
  have hw : ∀ index, (emptySprite 0x200 index).machine.wordAtPc = 0xD000 := fun index =>
    Machine.wordAtPc_of_program Memory.fresh [0xD0, 0x00] 0 rfl rfl (by decide) (by decide)
  obtain ⟨_, hfetch, _, _⟩ := step_faults_iff (emptySprite 0xFFF 0)
  obtain ⟨_, _, hbehind, _⟩ := step_faults_iff (emptySprite 0x200 0x1001)
  obtain ⟨_, _, hend, _⟩ := step_faults_iff (emptySprite 0x200 0x1000)
  refine ⟨hfetch (by decide), ?_, ?_⟩
  · refine (hbehind (by decide)).2.2.1.mpr ⟨0, ?_, by decide⟩
    rw [hw]
    exact Or.inl (by decide)
  · refine (hend (by decide)).2.2.2.mpr ⟨?_, ?_, ?_⟩
    · rw [hw]
      decide
    · rintro ⟨h, _⟩
      rw [hw] at h
      exact absurd h (by decide)
    · rintro ⟨n, hn, hlt⟩
      rw [hw] at hn
      have hn0 : n = 0 := by
        rcases hn with ⟨_, h⟩ | ⟨h, _⟩ | ⟨h, _⟩
        · exact h
        · exact absurd h (by decide)
        · exact absurd h (by decide)
      subst hn0
      exact absurd hlt (by decide)

end Session

end Chip8
