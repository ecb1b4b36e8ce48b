import Chip8.Proofs.History
import Chip8.Proofs.Loading
import Chip8.Proofs.Subroutine

/-!
# What a step can change

Each part of a machine is changed by a few instructions only. Fx33 and Fx55 write to memory, from the index on and as
far as their digits or registers go. A register changes if it is the one that the result goes to, if it is the flag and
the instruction sets it, or if Fx65 reaches it. All else stays as it is, through runs of any length.
-/
namespace Chip8

namespace Instruction

/-- How many bytes an instruction writes at the index. -/
def writeLength : Instruction → Nat
  | storeDecimal _ => 3
  | storeRegisters x => x.toNat + 1
  | _ => 0

/-- The register that an instruction puts its result into. Fx65 is left out, which fills all up to Vx. -/
def target? : Instruction → Option UInt8
  | load x _ | add x _ | move x _ | or x _ | and x _ | xor x _ | addRegister x _ | sub x _
  | subReversed x _ | shiftRight x | shiftLeft x | random x _ | readDelay x | waitKey x => some x
  | _ => none

/-- Whether an instruction sets the flag beside its result. -/
def setsFlag : Instruction → Bool
  | addRegister _ _ | sub _ _ | subReversed _ _ | shiftRight _ | shiftLeft _ | draw _ _ _
  | addIndex _ => true
  | _ => false

/-- Whether an instruction sets the register that a byte names: for its result, as one of V0 to Vx, or as the flag. -/
def SetsRegister (i : Instruction) (name : UInt8) : Prop :=
  (∃ x, i.target? = some x ∧ Registers.slot name = Registers.slot x) ∨
    (∃ x, i = .loadRegisters x ∧ (Registers.slot name).val ≤ x.toNat) ∨
    (i.setsFlag = true ∧ Registers.slot name = Registers.slot 0xF)

end Instruction

namespace Registers

variable {r : Registers} {a b value flag : UInt8} {n : Nat} {values : List UInt8}

/-- A register changes only where a value is put. -/
theorem slot_of_set_changed (h : (r.set a value).get b ≠ r.get b) : slot b = slot a := by
  rw [get_set] at h
  by_cases hslot : slot b = slot a
  · exact hslot
  · rw [if_neg hslot] at h
    exact absurd rfl h

theorem slot_of_set_set_changed {c : UInt8} (h : ((r.set a value).set c flag).get b ≠ r.get b) :
    slot b = slot a ∨ slot b = slot c := by
  by_cases hfirst : (r.set a value).get b = r.get b
  · rw [← hfirst] at h
    exact Or.inr (slot_of_set_changed h)
  · exact Or.inl (slot_of_set_changed hfirst)

theorem slot_of_setAll_changed (h : (r.setAll n values).get b ≠ r.get b) :
    ∃ j < values.length, slot b = slot (UInt8.ofNat (n + j)) := by
  induction values generalizing r n with
  | nil => exact absurd rfl h
  | cons v rest ih =>
    by_cases hrest : ((r.set (UInt8.ofNat n) v).setAll (n + 1) rest).get b =
        (r.set (UInt8.ofNat n) v).get b
    · rw [setAll, hrest] at h
      exact ⟨0, Nat.succ_pos _, slot_of_set_changed h⟩
    · obtain ⟨j, hj, hslot⟩ := ih hrest
      refine ⟨j + 1, Nat.succ_lt_succ hj, ?_⟩
      rw [hslot, Nat.add_assoc, Nat.add_comm 1 j]

/-- Adding to the index sets the flag at most. -/
theorem slot_of_addIndex_changed {x : UInt8} (h : (r.addIndex x).get b ≠ r.get b) :
    slot b = slot 0xF := by
  unfold addIndex at h
  dsimp only at h
  split at h
  · exact slot_of_set_changed h
  · exact absurd rfl h

theorem index_setAll (r : Registers) (n : Nat) (values : List UInt8) :
    (r.setAll n values).index = r.index := by
  induction values generalizing r n with
  | nil => rfl
  | cons v rest ih => exact ih _ _

end Registers

namespace Memory

/-- Whether every byte of the font is where it belongs. -/
def HoldsFont (m : Memory) : Prop :=
  ∀ a, 0x50 ≤ a → a < 0xA0 → m.byte a = Font.glyphs.getD (a - 0x50) 0

theorem holdsFont_fresh : fresh.HoldsFont := by
  intro a hle hlt
  rw [byte_fresh, if_pos ⟨hle, hlt⟩]

/-- What is put behind the font leaves it alone. -/
theorem HoldsFont.putAll {m : Memory} (h : m.HoldsFont) {address : Nat}
    (haddress : 0xA0 ≤ address) (data : List UInt8) : (m.putAll address data).HoldsFont := by
  intro a hle hlt
  rw [byte_putAll, if_neg (by omega)]
  exact h a hle hlt

end Memory

namespace Machine

/-- Whether an instruction writes to an address. -/
def Covers (m : Machine) (i : Instruction) (a : Nat) : Prop :=
  m.registers.index.toNat ≤ a ∧ a < m.registers.index.toNat + i.writeLength

theorem length_stored_le (m : Machine) (i : Instruction) :
    (m.stored i).length ≤ i.writeLength := by
  cases i with
  | storeRegisters x => exact List.length_take_le _ _
  | _ => exact Nat.le_refl _

theorem byte_memoryAfter {m : Machine} {i : Instruction} {a : Nat} (h : ¬ m.Covers i a) :
    (m.memoryAfter i).byte a = m.memory.byte a := by
  have hlength := m.length_stored_le i
  have houtside : ¬ (m.registers.index.toNat ≤ a ∧
      a < m.registers.index.toNat + (m.stored i).length ∧ a < Memory.size) := by
    intro hinside
    exact h ⟨hinside.1, by omega⟩
  rw [memoryAfter, Memory.byte_putAll, if_neg houtside]

end Machine

/-- Whether an execution writes to an address. -/
def Execution.Covers (e : Execution) (a : Nat) : Prop := e.before.machine.Covers e.instruction a

instance (e : Execution) (a : Nat) : Decidable (e.Covers a) :=
  inferInstanceAs (Decidable (_ ∧ _))

namespace Session

/-- How the stack moves under an instruction: a call puts one address on it, and a return takes one off. -/
def StackMoves (s : Session) (i : Instruction) (t : Session) : Prop :=
  match i with
  | .call _ => ∃ a, t.machine.stack.frames = a :: s.machine.stack.frames
  | .ret => ∃ a, s.machine.stack.frames = a :: t.machine.stack.frames
  | _ => t.machine.stack = s.machine.stack

/-- Each part of the machine that is not the same in `s` and `t` is one that the instruction `i` is there to change. -/
structure Confined (s : Session) (i : Instruction) (t : Session) : Prop where
  memory : ∀ a, t.machine.memory.byte a ≠ s.machine.memory.byte a → s.machine.Covers i a
  screen : t.machine.screen ≠ s.machine.screen → i = .clearScreen ∨ ∃ x y n, i = .draw x y n
  stack : s.StackMoves i t
  delay : t.machine.timers.delay ≠ s.machine.timers.delay → ∃ x, i = .setDelay x
  sound : t.machine.timers.sound ≠ s.machine.timers.sound → ∃ x, i = .setSound x
  index : t.machine.registers.index ≠ s.machine.registers.index →
    (∃ nnn, i = .loadIndex nnn) ∨ (∃ x, i = .addIndex x) ∨ ∃ x, i = .loadGlyph x
  random : t.machine.random ≠ s.machine.random → ∃ x nn, i = .random x nn
  register : ∀ name, t.machine.registers.get name ≠ s.machine.registers.get name →
    i.SetsRegister name

variable {s t : Session} {i : Instruction} {here : Address}

theorem register_of_changed (s : Session) (i : Instruction) (name : UInt8)
    (h : (s.registersAfter i).get name ≠ s.machine.registers.get name) :
    i.SetsRegister name := by
  cases i with
  | load x | add x | move x | or x | and x | xor x | random x | readDelay x =>
    exact Or.inl ⟨x, rfl, Registers.slot_of_set_changed h⟩
  | addRegister x y | sub x y | subReversed x y =>
    rcases Registers.slot_of_set_set_changed h with hflag | hx
    · exact Or.inr (Or.inr ⟨rfl, hflag⟩)
    · exact Or.inl ⟨x, rfl, hx⟩
  | shiftRight x | shiftLeft x =>
    rcases Registers.slot_of_set_set_changed h with hx | hflag
    · exact Or.inl ⟨x, rfl, hx⟩
    · exact Or.inr (Or.inr ⟨rfl, hflag⟩)
  | draw x y n => exact Or.inr (Or.inr ⟨rfl, Registers.slot_of_set_changed h⟩)
  | waitKey x =>
    cases hkey : s.query.1 with
    | none =>
      rw [registersAfter, hkey] at h
      exact absurd rfl h
    | some key =>
      rw [registersAfter, hkey] at h
      exact Or.inl ⟨x, rfl, Registers.slot_of_set_changed h⟩
  | addIndex x => exact Or.inr (Or.inr ⟨rfl, Registers.slot_of_addIndex_changed h⟩)
  | loadGlyph x =>
    obtain ⟨glyph, hg⟩ := glyphAddress_isSome s.machine.registers x
    rw [registersAfter, hg] at h
    exact absurd rfl h
  | loadRegisters x =>
    obtain ⟨j, hj, hslot⟩ := Registers.slot_of_setAll_changed h
    rw [Machine.length_bytesAtIndex] at hj
    refine Or.inr (Or.inl ⟨x, rfl, ?_⟩)
    rw [hslot]
    simp only [Registers.slot, UInt8.toNat_ofNat']
    omega
  | _ => exact absurd rfl h

theorem index_of_changed (s : Session) (i : Instruction)
    (h : (s.registersAfter i).index ≠ s.machine.registers.index) :
    (∃ nnn, i = .loadIndex nnn) ∨ (∃ x, i = .addIndex x) ∨ ∃ x, i = .loadGlyph x := by
  cases i with
  | loadIndex nnn => exact Or.inl ⟨nnn, rfl⟩
  | addIndex x => exact Or.inr (Or.inl ⟨x, rfl⟩)
  | loadGlyph x => exact Or.inr (Or.inr ⟨x, rfl⟩)
  | waitKey x =>
    cases hkey : s.query.1 with
    | none | some key =>
      rw [registersAfter, hkey] at h
      exact absurd rfl h
  | loadRegisters x => exact absurd (Registers.index_setAll _ _ _) h
  | _ => exact absurd rfl h

theorem confined_of_done (h : s.execute i here = .done t) : s.Confined i t := by
  have hret : i = .ret → s.machine.stack.frames = t.machine.pc :: t.machine.stack.frames := by
    rintro rfl
    exact execute_ret_done h
  obtain rfl := execute_done_eq h
  constructor
  · intro a hchanged
    exact Classical.byContradiction fun hcovers => hchanged (Machine.byte_memoryAfter hcovers)
  · intro hchanged
    cases i with
    | clearScreen => exact Or.inl rfl
    | draw x y n => exact Or.inr ⟨x, y, n, rfl⟩
    | _ => exact absurd rfl hchanged
  · cases i with
    | call nnn => exact ⟨s.machine.pc, rfl⟩
    | ret => exact ⟨_, hret rfl⟩
    | _ => rfl
  · intro hchanged
    cases i with
    | setDelay x => exact ⟨x, rfl⟩
    | _ => exact absurd rfl hchanged
  · intro hchanged
    cases i with
    | setSound x => exact ⟨x, rfl⟩
    | _ => exact absurd rfl hchanged
  · exact s.index_of_changed i
  · intro hchanged
    cases i with
    | random x nn => exact ⟨x, nn, rfl⟩
    | _ => exact absurd rfl hchanged
  · exact s.register_of_changed i

/-- Fetching and counting leave alone all that an instruction is confined to. -/
theorem confined_of_step (h : s.step = .done t) :
    ∃ w i, s.machine.fetch = .ok (w, i) ∧ s.Confined i t := by
  obtain ⟨w, i, u, hfetch, he, rfl⟩ := step_done h
  have hu := confined_of_done he
  exact ⟨w, i, hfetch, hu.memory, hu.screen, hu.stack, hu.delay, hu.sound, hu.index, hu.random,
    hu.register⟩

/-- Every byte that no execution writes to is the same in `s` and `t`. -/
def KeepsUncovered (s : Session) (executions : List Execution) (t : Session) : Prop :=
  ∀ a, (∀ e ∈ executions, ¬ e.Covers a) → t.machine.memory.byte a = s.machine.memory.byte a

theorem keepsUncovered_of_same {executions : List Execution}
    (h : t.machine.memory = s.machine.memory) : s.KeepsUncovered executions t :=
  fun a _ => congrArg (fun memory => Memory.byte memory a) h

theorem keepsUncovered_composes : Composes KeepsUncovered where
  refl _ := keepsUncovered_of_same rfl
  trans := by
    intro s t u first second hs ht a huncovered
    have hfirst := hs a fun e he => huncovered e (List.mem_append_left second he)
    have hsecond := ht a fun e he => huncovered e (List.mem_append_right first he)
    exact hsecond.trans hfirst
  execution := by
    intro e a huncovered
    have hcovers := huncovered e List.mem_cons_self
    have hmemory := (confined_of_done e.done).memory a
    exact Classical.byContradiction fun hchanged => hcovers (hmemory hchanged)
  setPc _ _ := keepsUncovered_of_same rfl
  count _ := keepsUncovered_of_same rfl
  setTimers _ _ := keepsUncovered_of_same rfl

theorem fits_keepsUncovered {a : Action} (hload : ∀ image, a ≠ .operation (.load image)) :
    a.Fits KeepsUncovered :=
  Action.fits_of_same (fun h => keepsUncovered_of_same (congrArg Machine.memory h))
    fun image h => absurd h (hload image)

/-- A step that is done changes only what its instruction is there for. So whatever a host does except loading, a byte
is what it was at first unless an Fx33 or an Fx55 has been executed that covers its address, and the font is intact
unless one has covered an address of the font. -/
theorem steps_confined (s : Session) :
    (∀ t, s.step = .done t → ∃ w i, s.machine.fetch = .ok (w, i) ∧ s.Confined i t) ∧
    ∀ actions, (∀ image, .operation (.load image) ∉ actions) →
      let executions := s.executionsAll actions
      let t := s.actAll actions
      (∀ a, t.machine.memory.byte a ≠ s.machine.memory.byte a →
        ∃ e ∈ executions, e.Covers a) ∧
      (s.machine.memory.HoldsFont →
        (∀ e ∈ executions, ∀ a, 0x50 ≤ a → a < 0xA0 → ¬ e.Covers a) →
          t.machine.memory.HoldsFont) := by
  refine ⟨fun t h => confined_of_step h, ?_⟩
  intro actions hloads executions t
  have hkeeps : s.KeepsUncovered executions t := by
    apply keepsUncovered_composes.actAll s
    rintro a ha
    apply fits_keepsUncovered
    rintro image rfl
    exact hloads image ha
  constructor
  · intro a hchanged
    apply Classical.byContradiction
    intro hnone
    exact hchanged (hkeeps a fun e he hcovers => hnone ⟨e, he, hcovers⟩)
  · intro hfont huncovered a hle hlt
    have hbyte := hkeeps a fun e he => huncovered e he a hle hlt
    exact hbyte.trans (hfont a hle hlt)

/-- Puts the digits of V1 behind the font and comes to a zero word. -/
def digitProgram : Session where
  machine :=
    { Machine.ofSeed 7 with
      memory := Memory.fresh.putAll 0x200 [0xF1, 0x33]
      registers := (Registers.fresh.set 1 123).setIndex 0xA0 }
  keypad := Keypad.untouched

/-- A step that is done, and a run that fails at once. -/
def digitRun : List Action := [.operation .step, .operation (.run (fun _ => 1) 1)]

theorem executions_digitProgram :
    (digitProgram.executionsAll digitRun).map
        (fun e => (e.instruction, e.before.machine.registers.index)) =
      [(.storeDecimal 1, 0xA0)] := by
  decide +kernel

/-- The digits stand just behind the font, which is still there after the run. -/
theorem steps_confined_behind_font :
    (∃ t, digitProgram.step = .done t ∧ digitProgram.Confined (.storeDecimal 1) t) ∧
      (∀ image, .operation (.load image) ∉ digitRun) ∧ digitProgram.machine.memory.HoldsFont ∧
      (digitProgram.actAll digitRun).machine.memory.byte 0xA0 = 1 ∧
      (digitProgram.actAll digitRun).machine.memory.HoldsFont := by
  have hloads : ∀ image, .operation (.load image) ∉ digitRun := by
    simp [digitRun]
  have hfont : digitProgram.machine.memory.HoldsFont :=
    Memory.holdsFont_fresh.putAll (by decide) _
  have huncovered : ∀ e ∈ digitProgram.executionsAll digitRun,
      ∀ a, 0x50 ≤ a → a < 0xA0 → ¬ e.Covers a := by
    intro e he a _ ha hcovers
    have hmem := List.mem_map_of_mem
      (f := fun e : Execution => (e.instruction, e.before.machine.registers.index)) he
    rw [executions_digitProgram, List.mem_singleton] at hmem
    have hindex : e.before.machine.registers.index = 0xA0 := congrArg Prod.snd hmem
    have hle := hcovers.1
    rw [hindex] at hle
    exact absurd ha (Nat.not_lt.mpr hle)
  obtain ⟨hstep, hrun⟩ := steps_confined digitProgram
  refine ⟨?_, hloads, hfont, by decide +kernel, (hrun digitRun hloads).2 hfont huncovered⟩
  have hfetched : digitProgram.machine.fetch = .ok (0xF133, .storeDecimal 1) :=
    Machine.fetch_of_program Memory.fresh [0xF1, 0x33] 0 rfl rfl (by decide) (by decide)
      (by decide) (by decide)
  obtain ⟨t, ht⟩ := step_done_iff.mpr (Machine.fault_of_fetched hfetched)
  obtain ⟨w, i, hfetch, hconfined⟩ := hstep t ht
  cases hfetched.symm.trans hfetch
  exact ⟨t, ht, hconfined⟩

end Session

end Chip8
