import Chip8.Machine.Step
import Chip8.Proofs.Decoding
import Chip8.Proofs.Execution

/-!
# What a step comes to

A step is done or ends with a fault, and `Machine.fault?` tells which of the two from the machine alone. It never
traps: the word was fetched from inside memory, so the program counter has room to move twice, and the operands have
been decoded, so no register past VF and no address above 0xFFF is named.
-/
namespace Chip8

namespace Machine

/-- The word at the program counter. -/
def wordAtPc (m : Machine) : Word :=
  Word.ofBytes (m.memory.byte m.pc.toNat) (m.memory.byte (m.pc.toNat + 1))

/-- The fault that the next step ends with, if it does. -/
def fault? (m : Machine) : Option Fault :=
  match m.fetch with
  | .error f => some f
  | .ok (_, i) => m.refusal? i m.pc

variable {m : Machine} {w : Word} {i : Instruction} {f : Fault}

theorem fetch_of_lt (h : 0xFFE < m.pc.toNat) :
    m.fetch = .error (.addressOutOfBounds (max m.pc.toNat Memory.size) m.pc) := by
  rw [fetch, Memory.word_of_lt _ (by rw [Memory.size]; omega)]
  rfl

theorem fetch_of_undecodable (h : m.pc.toNat ≤ 0xFFE) (hd : Instruction.decode m.wordAtPc = none) :
    m.fetch = .error (.invalidInstruction m.wordAtPc m.pc) := by
  have hw : m.memory.word m.pc.toNat = .ok m.wordAtPc :=
    Memory.word_of_le _ (by rw [Memory.size]; omega)
  simp only [fetch, hw, hd]

theorem fetch_of_decoded (h : m.pc.toNat ≤ 0xFFE) (hd : Instruction.decode m.wordAtPc = some i) :
    m.fetch = .ok (m.wordAtPc, i) := by
  have hw : m.memory.word m.pc.toNat = .ok m.wordAtPc :=
    Memory.word_of_le _ (by rw [Memory.size]; omega)
  simp only [fetch, hw, hd]

/-- A word is fetched from inside memory, and it decodes to the instruction that comes with it. -/
theorem fetch_eq_ok_iff :
    m.fetch = .ok (w, i) ↔
      m.pc.toNat ≤ 0xFFE ∧ w = m.wordAtPc ∧ Instruction.decode m.wordAtPc = some i := by
  by_cases hp : m.pc.toNat ≤ 0xFFE
  · cases hd : Instruction.decode m.wordAtPc with
    | none => simp [fetch_of_undecodable hp hd]
    | some j =>
      rw [fetch_of_decoded hp hd]
      simp [hp, eq_comm]
  · rw [fetch_of_lt (Nat.lt_of_not_le hp)]
    simp [hp]

theorem fault_of_fetched (h : m.fetch = .ok (w, i)) : m.fault? = m.refusal? i m.pc := by
  rw [fault?, h]

/-- A machine reads the program that was put where images are loaded. -/
theorem wordAtPc_of_program (base : Memory) (program : List UInt8) (k : Nat)
    (hm : m.memory = base.putAll Image.base.toNat program)
    (hpc : m.pc.toNat = Image.base.toNat + k) (hk : k + 1 < program.length)
    (hsize : Image.base.toNat + program.length ≤ Memory.size) :
    m.wordAtPc = Word.ofBytes (program.getD k 0) (program.getD (k + 1) 0) := by
  have hbyte : ∀ j < program.length,
      m.memory.byte (Image.base.toNat + j) = program.getD j 0 := by
    intro j hj
    rw [hm, Memory.byte_putAll, if_pos (by omega), Nat.add_sub_cancel_left]
  rw [wordAtPc, hpc, hbyte k (by omega), Nat.add_assoc, hbyte (k + 1) hk]

theorem fetch_of_program (base : Memory) (program : List UInt8) (k : Nat)
    (hm : m.memory = base.putAll Image.base.toNat program)
    (hpc : m.pc.toNat = Image.base.toNat + k) (hk : k + 1 < program.length)
    (hsize : Image.base.toNat + program.length ≤ Memory.size)
    (hw : Word.ofBytes (program.getD k 0) (program.getD (k + 1) 0) = w)
    (hd : Instruction.decode w = some i) : m.fetch = .ok (w, i) := by
  have hword := (wordAtPc_of_program base program k hm hpc hk hsize).trans hw
  refine fetch_eq_ok_iff.mpr ⟨?_, hword.symm, by rw [hword, hd]⟩
  rw [Memory.size] at hsize
  omega

end Machine

namespace Session

/-- The session in which the instruction at the program counter is executed. -/
def ahead (s : Session) : Session := s.setPc (UInt16.ofNat (s.machine.pc.toNat + 2))

variable {s t : Session} {w : Word} {i : Instruction} {f : Fault}

theorem step_of_error (h : s.machine.fetch = .error f) : s.step = .faulted f s := by
  rw [step, h]

theorem step_of_ok (h : s.machine.fetch = .ok (w, i)) :
    s.step = match s.ahead.execute i s.machine.pc with
      | .done after => .done after.count
      | .faulted f after => .faulted f (after.setPc s.machine.pc)
      | .trapped t after => .trapped t after := by
  have hp := (Machine.fetch_eq_ok_iff.mp h).1
  rw [step, h]
  simp only [Address.plus?, if_pos (show s.machine.pc.toNat + 2 < 65536 by omega)]
  rfl

theorem toNat_pc_ahead (h : s.machine.pc.toNat ≤ 0xFFE) :
    s.ahead.machine.pc.toNat = s.machine.pc.toNat + 2 := by
  simp only [ahead, setPc, UInt16.toNat_ofNat']
  omega

/-- No decoded instruction traps while the program counter is where fetching left it. -/
theorem not_traps_of_inRange (hi : i.InRange) (hp : s.machine.pc.toNat ≤ 65533) : ¬ s.Traps i := by
  cases i with
  | storeRegisters x =>
    simp only [Instruction.InRange] at hi
    simp only [Traps]
    omega
  | jumpOffset nnn =>
    have hv := (s.machine.registers.get 0).toNat_lt
    simp only [Instruction.InRange] at hi
    simp only [Traps]
    omega
  | _ => exact fun h => absurd h.2 (Nat.not_lt.mpr hp)

theorem not_traps_of_fetched (h : s.machine.fetch = .ok (w, i)) : ¬ s.ahead.Traps i := by
  obtain ⟨hp, _, hd⟩ := Machine.fetch_eq_ok_iff.mp h
  apply not_traps_of_inRange (Instruction.decode_inRange hd)
  rw [toNat_pc_ahead hp]
  omega

/-- The two ways a step can end, each with what the machine before it says about it. -/
def StepSettles (s : Session) : Outcome Session → Prop
  | .done t => s.machine.fault? = none ∧ ∃ w i u,
      s.machine.fetch = .ok (w, i) ∧ s.ahead.execute i s.machine.pc = .done u ∧ t = u.count
  | .faulted f t => s.machine.fault? = some f ∧ t = s
  | .trapped _ _ => False

theorem step_settles (s : Session) : s.StepSettles s.step := by
  cases hf : s.machine.fetch with
  | error f =>
    rw [step_of_error hf]
    exact ⟨by rw [Machine.fault?, hf], rfl⟩
  | ok p =>
    obtain ⟨w, i⟩ := p
    have hfault : s.machine.fault? = s.ahead.machine.refusal? i s.machine.pc :=
      Machine.fault_of_fetched hf
    have hs := s.ahead.execute_settles i s.machine.pc
    rw [step_of_ok hf]
    cases he : s.ahead.execute i s.machine.pc with
    | done u =>
      rw [he] at hs
      exact ⟨hfault.trans hs.2, w, i, u, hf, he, rfl⟩
    | faulted f u =>
      rw [he] at hs
      obtain ⟨_, hr, rfl⟩ := hs
      exact ⟨hfault.trans hr, rfl⟩
    | trapped _ u =>
      rw [he] at hs
      exact not_traps_of_fetched hf hs

theorem step_faulted_iff : s.step = .faulted f t ↔ s.machine.fault? = some f ∧ t = s := by
  have hs := s.step_settles
  constructor
  · intro h
    rwa [h] at hs
  · rintro ⟨hf, rfl⟩
    cases ho : t.step with
    | done u =>
      rw [ho] at hs
      rw [hs.1] at hf
      cases hf
    | faulted g u =>
      rw [ho] at hs
      obtain ⟨hg, rfl⟩ := hs
      rw [hg] at hf
      cases hf
      rfl
    | trapped _ u =>
      rw [ho] at hs
      exact hs.elim

theorem step_done_iff : (∃ t, s.step = .done t) ↔ s.machine.fault? = none := by
  have hs := s.step_settles
  constructor
  · rintro ⟨t, h⟩
    rw [h] at hs
    exact hs.1
  · intro hf
    cases ho : s.step with
    | done t => exact ⟨t, rfl⟩
    | faulted f t =>
      rw [ho] at hs
      rw [hs.1] at hf
      cases hf
    | trapped _ t =>
      rw [ho] at hs
      exact hs.elim

/-- A step that is done fetched a word, executed its instruction and counted it. -/
theorem step_done (h : s.step = .done t) : ∃ w i u,
    s.machine.fetch = .ok (w, i) ∧ s.ahead.execute i s.machine.pc = .done u ∧ t = u.count := by
  have hs := s.step_settles
  rw [h] at hs
  exact hs.2

theorem step_ne_trapped {trap : Trap} : s.step ≠ .trapped trap t := by
  intro h
  have hs := s.step_settles
  rw [h] at hs
  exact hs

end Session

end Chip8
