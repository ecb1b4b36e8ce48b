import Mathlib.Algebra.Group.Nat.Defs
import Chip8.Proofs.Running

/-!
# No step traps

Each sum and each access of a step is within bounds for a reason of its own: the word at the program counter was
read, so the counter can move twice; the operands come from three digits of a word; a screen position is taken modulo
the size of the screen. Nothing is asked of the machine, whose parts can have any values.
-/
namespace Chip8

namespace Session

/-- What a step relies on while it executes `i`, for every address it adds up and everything it indexes. -/
structure Guarded (s : Session) (i : Instruction) : Prop where
  word : s.machine.pc.toNat + 2 ≤ Memory.size
  /-- Both the move past the word and the skip after it. -/
  advance : s.machine.pc.toNat + 2 + 2 ≤ 0xFFFF
  offset : ∀ nnn, i = .jumpOffset nnn →
    nnn.toNat + (s.machine.registers.get 0).toNat ≤ 0xFFFF
  glyph : ∀ x, i = .loadGlyph x →
    Font.base + Font.glyphLength * ((s.machine.registers.get x).toNat % 16) ≤ 0xFFFF
  registers : ∀ x, i = .storeRegisters x → x.toNat + 1 ≤ 16
  bytes : ∀ n t, i.reach? = some n → s.step = .done t →
    s.machine.registers.index.toNat + n ≤ Memory.size
  pixels : ∀ x y n, i = .draw x y n → ∀ sprite,
    ∀ p ∈ Sprite.spots (s.machine.registers.get x).toNat (s.machine.registers.get y).toNat sprite,
      p.x < 64 ∧ p.y < 32

variable {s t : Session} {w : Word} {i : Instruction}

/-- A step that is done has touched no byte past the end of memory. -/
theorem reach_of_step_done (hf : s.machine.fetch = .ok (w, i)) (h : s.step = .done t) {n : Nat}
    (hn : i.reach? = some n) : s.machine.registers.index.toNat + n ≤ Memory.size := by
  have hnone := step_done_iff.mp ⟨t, h⟩
  apply Nat.le_of_not_lt
  intro hlt
  rw [Machine.fault_of_fetched hf, Machine.refusal_of_reach hn,
    Machine.overreach_of_lt hlt] at hnone
  cases hnone

theorem guarded_of_fetched (hf : s.machine.fetch = .ok (w, i)) : s.Guarded i := by
  obtain ⟨hp, _, hd⟩ := Machine.fetch_eq_ok_iff.mp hf
  have hrange := Instruction.decode_inRange hd
  refine ⟨by rw [Memory.size]; omega, by omega, ?_, ?_, ?_, ?_, ?_⟩
  · rintro nnn rfl
    have hv := (s.machine.registers.get 0).toNat_lt
    change nnn.toNat < 4096 at hrange
    omega
  · intro x _
    have hx := Nat.mod_lt (s.machine.registers.get x).toNat (show 0 < 16 by decide)
    simp only [Font.base, Font.glyphLength]
    omega
  · rintro x rfl
    exact hrange
  · intro n t hn h
    exact reach_of_step_done hf h hn
  · intro x y n _ sprite p hp
    exact Screen.onScreen_iff.mp (Sprite.onScreen_of_mem_spots hp)

/-- A step is done or refused, never anything else. -/
theorem step_total (s : Session) : (∃ t, s.step = .done t) ∨ ∃ f, s.step = .faulted f s := by
  cases h : s.step with
  | done t => exact Or.inl ⟨t, rfl⟩
  | faulted f t =>
    obtain ⟨_, rfl⟩ := step_faulted_iff.mp h
    exact Or.inr ⟨f, rfl⟩
  | trapped trap t => exact absurd h step_ne_trapped

theorem step_cycles_le (s : Session) :
    s.step.state.machine.cycles ≤ s.machine.cycles + 1 := by
  rcases s.step_total with ⟨t, h⟩ | ⟨f, h⟩
  · obtain ⟨_, _, _, _, hcycles, _⟩ := step_framed h
    rw [h]
    exact Nat.le_of_eq hcycles
  · rw [h]
    exact Nat.le_succ _

theorem run_continues (s : Session) (ticks : Nat → Nat) (patience : Nat) :
    s.start.Continues patience (s.run ticks patience).run :=
  Run.turns_continues ticks patience s.start

/-- No step of any session traps: what is fetched is guarded, the step is done or faulted, and its count stays a
number of 64 bits. Nor does any run, whatever the ticks between its steps. -/
theorem never_traps (s : Session) :
    (∀ w i, s.machine.fetch = .ok (w, i) → s.Guarded i) ∧
      ((∃ t, s.step = .done t) ∨ ∃ f, s.step = .faulted f s) ∧
      (s.machine.cycles < 2 ^ 64 - 1 → s.step.state.machine.cycles < 2 ^ 64) ∧
      ∀ ticks patience,
        (∀ trap r, s.run ticks patience ≠ .stopped (.trap trap) r) ∧
          (s.run ticks patience).run.steps ≤ patience ∧
          (s.run ticks patience).run.session.machine.cycles =
            s.machine.cycles + (s.run ticks patience).run.steps := by
  refine ⟨fun w i => guarded_of_fetched, s.step_total, ?_, ?_⟩
  · intro h
    have hle := s.step_cycles_le
    omega
  · intro ticks patience
    obtain ⟨hsteps, hcycles⟩ := s.run_continues ticks patience
    refine ⟨fun trap r => Run.turns_ne_trap ticks patience s.start, ?_, hcycles⟩
    exact Nat.le_trans hsteps (Nat.le_of_eq (Nat.zero_add patience))

/-- A session that is about to jump as far as a jump can go, with the last count but one. -/
def farJump : Session where
  machine := { Machine.ofSeed 7 with
    memory := Memory.fresh.putAll 0x200 [0xBF, 0xFF]
    registers := ⟨Vector.replicate 16 0xFF, 0xFFFF⟩
    cycles := 2 ^ 64 - 2 }
  keypad := Keypad.untouched

theorem never_traps_far_jump :
    farJump.Guarded (.jumpOffset 0xFFF) ∧
      farJump.step.state.machine.cycles < 2 ^ 64 ∧
      ∀ trap r, farJump.run (fun _ => 2) 3 ≠ .stopped (.trap trap) r := by
  have hfetch : farJump.machine.fetch = .ok (0xBFFF, .jumpOffset 0xFFF) :=
    Machine.fetch_of_program Memory.fresh [0xBF, 0xFF] 0 rfl rfl (by decide) (by decide)
      (by decide) (by decide)
  obtain ⟨hguarded, _, hcount, hrun⟩ := never_traps farJump
  have hcycles : farJump.machine.cycles < 2 ^ 64 - 1 := by
    change 2 ^ 64 - 2 < 2 ^ 64 - 1
    decide
  exact ⟨hguarded _ _ hfetch, hcount hcycles, (hrun _ 3).1⟩

end Session

end Chip8
