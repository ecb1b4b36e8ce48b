import Chip8.Proofs.Encoding
import Chip8.Proofs.Loading
import Chip8.Proofs.Trace

/-!
# Straight-line programs

Most instructions neither move the program counter nor write to memory, and where the program counter stands is all the
same to them. A program of such instructions is executed from its first word to its last as it was written, and what comes
behind it is either a zero word or the end of memory, so that the machine stops there.
-/
namespace Chip8

/-- Whether an instruction is always done, with the program counter and memory left alone. -/
def Instruction.IsStraight : Instruction → Prop
  | clearScreen | load _ _ | add _ _ | move _ _ | or _ _ | and _ _ | xor _ _ | addRegister _ _
  | sub _ _ | subReversed _ _ | shiftRight _ | shiftLeft _ | loadIndex _ | addIndex _ | loadGlyph _
  | random _ _ | readDelay _ | setDelay _ | setSound _ => True
  | _ => False

namespace Session

/-- The session at another place in its program. -/
def placed (s : Session) (pc : Address) (cycles : Nat) : Session :=
  { s with machine := { s.machine with pc := pc, cycles := cycles } }

/-- Executes instructions one after the other, without fetching them from memory. -/
def executeAll (s : Session) (here : Address) : List Instruction → Outcome Session
  | [] => .done s
  | i :: rest =>
    match s.execute i here with
    | .done t => t.executeAll here rest
    | failed => failed

variable {s t : Session} {i : Instruction} {here : Address} {program : List Instruction}

theorem executeAll_concat (h : s.executeAll here program = .done t) (i : Instruction) :
    s.executeAll here (program ++ [i]) = t.execute i here := by
  induction program generalizing s with
  | nil =>
    cases h
    simp only [List.nil_append, executeAll]
    cases t.execute i here <;> rfl
  | cons j rest ih =>
    simp only [executeAll] at h
    simp only [List.cons_append, executeAll]
    cases hj : s.execute j here with
    | done u =>
      rw [hj] at h
      exact ih h
    | faulted f u =>
      rw [hj] at h
      cases h
    | trapped trap u =>
      rw [hj] at h
      cases h

/-- A straight instruction does the same at every place. -/
theorem execute_straight (hi : i.IsStraight) (s : Session) (here : Address) :
    ∃ t, s.execute i here = .done t ∧ t.machine.memory = s.machine.memory ∧
      ∀ pc cycles there, (s.placed pc cycles).execute i there = .done (t.placed pc cycles) := by
  cases i with
  | loadGlyph x =>
    obtain ⟨glyph, hg⟩ := glyphAddress_isSome s.machine.registers x
    refine ⟨s.setRegisters (s.machine.registers.setIndex glyph), ?_, rfl, ?_⟩
    · simp only [execute, hg]
    · intro pc cycles there
      have hg' : (s.placed pc cycles).machine.registers.glyphAddress? x = some glyph := hg
      simp only [execute, hg']
      rfl
  | clearScreen | load | add | move | or | and | xor | addRegister | sub | subReversed
  | shiftRight | shiftLeft | loadIndex | addIndex | random | readDelay | setDelay | setSound =>
    exact ⟨_, rfl, rfl, fun _ _ _ => rfl⟩
  | _ => exact hi.elim

/-- The session at instruction `k` of its program, with the `k` instructions before it counted. -/
def placedAt (u : Session) (k : Nat) : Session := u.placed (UInt16.ofNat (0x200 + 2 * k)) k

theorem toNat_pc_placedAt {k : Nat} (u : Session) (hk : k ≤ 1792) :
    (u.placedAt k).machine.pc.toNat = 0x200 + 2 * k := by
  simp only [placedAt, placed, UInt16.toNat_ofNat']
  omega

/-- Whether the memory is a fresh one with the program loaded. -/
def Holds (s : Session) (program : List Instruction) : Prop :=
  s.machine.memory = Memory.fresh.putAll Image.base.toNat (Image.assemble program).bytes

theorem fetch_of_holds (hs : s.Holds program) (hlength : program.length ≤ 1792) {k : Nat}
    (hk : k < program.length) (hi : program[k].InRange)
    (hpc : s.machine.pc.toNat = 0x200 + 2 * k) :
    s.machine.fetch = .ok (program[k].encode, program[k]) := by
  have hbytes := Image.length_assemble program
  refine Machine.fetch_of_program Memory.fresh (Image.assemble program).bytes (2 * k) hs hpc ?_ ?_
    (Image.word_assemble program hk) (Instruction.decode_encode hi)
  · omega
  · rw [hbytes, Image.toNat_base, Memory.size]
    omega

/-- One more step in the program and one more instruction executed lead to the same place. -/
theorem step_placedAt (hu : s.Holds program) (hlength : program.length ≤ 1792) {k : Nat}
    (hk : k < program.length) (hi : program[k].InRange) (hstraight : program[k].IsStraight)
    (here : Address) :
    ∃ t, s.execute program[k] here = .done t ∧ t.Holds program ∧
      (s.placedAt k).step = .done (t.placedAt (k + 1)) := by
  obtain ⟨t, hdone, hmemory, hplaced⟩ := execute_straight hstraight s here
  have hpc := s.toNat_pc_placedAt (k := k) (by omega)
  have hfetch : (s.placedAt k).machine.fetch = .ok (program[k].encode, program[k]) :=
    fetch_of_holds (s := s.placedAt k) hu hlength hk hi hpc
  refine ⟨t, hdone, hmemory.trans hu, ?_⟩
  have hahead : (s.placedAt k).ahead = s.placed (UInt16.ofNat (0x200 + 2 * (k + 1))) k := by
    rw [ahead, hpc]
    rfl
  rw [step_of_ok hfetch, hahead, hplaced]
  rfl

/-- The first `k` steps execute the first `k` instructions. -/
theorem steps_placedAt (hs : s.Holds program) (hplace : s = s.placedAt 0)
    (hlength : program.length ≤ 1792)
    (hprogram : ∀ i ∈ program, i.InRange ∧ i.IsStraight) (here : Address) {k : Nat}
    (hk : k ≤ program.length) :
    ∃ u, s.executeAll here (program.take k) = .done u ∧ u.Holds program ∧
      s.steps? k = some (u.placedAt k) := by
  -- What has been executed so far still holds the program, so the next word is one of the program.
  induction k with
  | zero => exact ⟨s, rfl, hs, congrArg some hplace⟩
  | succ k ih =>
    obtain ⟨u, hall, hu, hsteps⟩ := ih (Nat.le_of_succ_le hk)
    obtain ⟨hi, hstraight⟩ := hprogram program[k] (List.getElem_mem hk)
    obtain ⟨t, hdone, ht, hstep⟩ := step_placedAt hu hlength hk hi hstraight here
    refine ⟨t, ?_, ht, ?_⟩
    · rw [List.take_succ_eq_append_getElem hk, executeAll_concat hall, hdone]
    · rw [steps?_add, hsteps, Option.bind_some, steps?_succ_of_done hstep]
      rfl

/-- Behind the program a fresh memory has zeros, and no instruction is zero. -/
theorem step_behind (hs : s.Holds program) (hlength : program.length < 1792)
    (hpc : s.machine.pc.toNat = 0x200 + 2 * program.length) :
    s.step = .faulted (.invalidInstruction 0 s.machine.pc) s := by
  have hzero : ∀ address, 0x200 + 2 * program.length ≤ address →
      s.machine.memory.byte address = 0 := by
    intro address haddress
    rw [hs, Memory.byte_putAll, Image.length_assemble, Image.toNat_base, if_neg (by omega),
      Memory.byte_fresh, if_neg (by omega)]
  have hword : s.machine.wordAtPc = 0 := by
    rw [Machine.wordAtPc, hzero _ (by omega), hzero _ (by omega)]
    rfl
  have hfetch := Machine.fetch_of_undecodable (m := s.machine) (by omega) (by rw [hword]; decide)
  rw [hword] at hfetch
  exact step_of_error hfetch

/-- A program of at most 1792 instructions can be loaded on a fresh machine, which then stands at its beginning. -/
theorem load_program (seed : UInt64) (k : Keypad) (hlength : program.length ≤ 1792) :
    ∃ m, (Machine.ofSeed seed).load (Image.assemble program) = .done m ∧
      Holds ⟨m, k⟩ program ∧ (⟨m, k⟩ : Session) = placedAt ⟨m, k⟩ 0 := by
  have hbytes := Image.length_assemble program
  have hcapacity : Memory.capacity = 3584 := rfl
  have hfits : (Image.assemble program).length ≤ Memory.capacity := by
    rw [Image.length]
    omega
  exact ⟨_, (Machine.ofSeed seed).load_of_le hfits, rfl, rfl⟩

/-- A program of straight instructions that is loaded on a fresh machine is executed as it was written: after `n` steps
the program counter stands behind `n` instructions, `n` are counted, memory is as it was loaded, and everything else is
as executing the first `n` instructions leaves it. The step behind the last instruction fails, at a zero word or at the
end of memory. -/
theorem straight_line_runs (seed : UInt64) (k : Keypad) (program : List Instruction)
    (hlength : program.length ≤ 1792)
    (hprogram : ∀ i ∈ program, i.InRange ∧ i.IsStraight) :
    ∃ m, (Machine.ofSeed seed).load (Image.assemble program) = .done m ∧
      (∀ j < 2 * program.length,
        m.memory.byte (0x200 + j) = (Image.assemble program).bytes.getD j 0) ∧
      (∀ n ≤ program.length, ∀ here, ∃ t u, steps? ⟨m, k⟩ n = some t ∧
        executeAll ⟨m, k⟩ here (program.take n) = .done u ∧
        t.machine.pc.toNat = 0x200 + 2 * n ∧ t.machine.cycles = n ∧
        t.machine.memory = m.memory ∧ t = u.placed t.machine.pc t.machine.cycles) ∧
      ∃ t, steps? ⟨m, k⟩ program.length = some t ∧
        (program.length < 1792 →
          t.step = .faulted
            (.invalidInstruction 0 (UInt16.ofNat (0x200 + 2 * program.length))) t) ∧
        (program.length = 1792 → t.step = .faulted (.addressOutOfBounds 0x1000 0x1000) t) := by
  have hbytes := Image.length_assemble program
  obtain ⟨m, hload, hm, hplace⟩ := load_program seed k hlength
  refine ⟨m, hload, ?_, ?_, ?_⟩
  · intro j hj
    change m.memory = _ at hm
    rw [hm, Memory.byte_putAll, Image.toNat_base, Memory.size, if_pos (by omega),
      Nat.add_sub_cancel_left]
  · intro n hn here
    obtain ⟨u, hall, hu, hsteps⟩ := steps_placedAt hm hplace hlength hprogram here hn
    exact ⟨_, u, hsteps, hall, toNat_pc_placedAt u (by omega), rfl, hu.trans hm.symm, rfl⟩
  · obtain ⟨u, _, hu, hsteps⟩ := steps_placedAt hm hplace hlength hprogram 0 (Nat.le_refl _)
    have hpc := toNat_pc_placedAt u hlength
    refine ⟨_, hsteps, ?_, ?_⟩
    · intro hlt
      exact step_behind hu hlt hpc
    · intro hfull
      rw [hfull]
      rw [hfull] at hpc
      exact step_of_error (Machine.fetch_of_lt (by omega))

/-- As many random numbers as fit into memory, each of them into VF. -/
def fullMemory : List Instruction := List.replicate 1792 (.random 0xF 0x3C)

/-- A program that fills memory to the last byte is executed to its last instruction, and stops at the end of
memory. -/
theorem straight_line_runs_full_memory :
    fullMemory.length = 1792 ∧ (∀ i ∈ fullMemory, i.InRange ∧ i.IsStraight) ∧
      ∃ m, (Machine.ofSeed 7).load (Image.assemble fullMemory) = .done m ∧
        ∃ t, steps? ⟨m, Keypad.held 3⟩ 1792 = some t ∧ t.machine.cycles = 1792 ∧
          t.step = .faulted (.addressOutOfBounds 0x1000 0x1000) t := by
  have hlength : fullMemory.length = 1792 := List.length_replicate
  have hprogram : ∀ i ∈ fullMemory, i.InRange ∧ i.IsStraight := by
    intro i hi
    rw [List.eq_of_mem_replicate hi]
    exact ⟨by change (0xF : UInt8).toNat < 16; decide, trivial⟩
  obtain ⟨m, hload, _, hrun, t, hsteps, _, hend⟩ :=
    straight_line_runs 7 (Keypad.held 3) fullMemory (Nat.le_of_eq hlength) hprogram
  obtain ⟨u, _, hu, _, _, hcycles, _, _⟩ := hrun fullMemory.length (Nat.le_refl _) 0
  rw [hu] at hsteps
  cases hsteps
  rw [hlength] at hu hcycles
  exact ⟨hlength, hprogram, m, hload, _, hu, hcycles, hend hlength⟩

end Session

end Chip8
