import Chip8.Proofs.Footprint
import Mathlib.Algebra.GroupWithZero.Nat

/-!
# An index past the end of memory

Fx1E adds to the index register and holds it at the greatest address, so the sums of several of them add up. Only Annn
and Fx29 point the register at an address of their own. As long as none of them is executed an index past the end of
memory stays there, and every instruction that uses memory at the index fails.
-/
namespace Chip8

namespace Registers

theorem toNat_index_addIndex (r : Registers) (x : UInt8) :
    (r.addIndex x).index.toNat = min 65535 (r.index.toNat + (r.get x).toNat) := by
  have hindex : (r.addIndex x).index =
      UInt16.ofNat (min (r.index.toNat + (r.get x).toNat) 65535) := by
    unfold addIndex
    dsimp only
    split
    · rfl
    · rfl
  rw [hindex, UInt16.toNat_ofNat']
  omega

/-- The flag is set if the index comes to lie past the end of memory, also if VF itself is added. -/
theorem flag_addIndex (r : Registers) (x : UInt8) :
    (r.addIndex x).flag = if 4096 ≤ (r.addIndex x).index.toNat then 1 else r.flag := by
  rw [toNat_index_addIndex]
  unfold addIndex
  dsimp only
  by_cases h : Memory.size ≤ r.index.toNat + (r.get x).toNat
  · rw [if_pos h, if_pos (by rw [Memory.size] at h; omega), flag_setFlag]
  · rw [if_neg h, if_neg (by rw [Memory.size] at h; omega)]
    rfl

end Registers

/-- What is done to the registers: V is written anew, or an Fx1E is executed. -/
inductive IndexMove where
  | write (v : Vector UInt8 16)
  | add (x : UInt8) (here : Address)

/-- Whether an instruction points the index at an address of its own. -/
def Instruction.pointsIndex : Instruction → Bool
  | loadIndex _ | loadGlyph _ => true
  | _ => false

namespace Session

def move (s : Session) : IndexMove → Session
  | .write v => s.setRegisters { s.machine.registers with v := v }
  | .add x here => (s.execute (.addIndex x) here).state

def moveAll (s : Session) (moves : List IndexMove) : Session := moves.foldl move s

/-- The values of Vx that are added, the first one first. -/
def addends (s : Session) : List IndexMove → List Nat
  | [] => []
  | .write v :: rest => (s.move (.write v)).addends rest
  | .add x here :: rest =>
    (s.machine.registers.get x).toNat :: (s.move (.add x here)).addends rest

variable {s t : Session} {i : Instruction}

/-! ## Sums -/

theorem toNat_index_moveAll (s : Session) (moves : List IndexMove) :
    (s.moveAll moves).machine.registers.index.toNat =
      min 65535 (s.machine.registers.index.toNat + (s.addends moves).sum) := by
  induction moves generalizing s with
  | nil =>
    have hlt := s.machine.registers.index.toNat_lt
    have hall : s.moveAll [] = s := rfl
    rw [hall, addends, List.sum_nil]
    omega
  | cons move rest ih =>
    cases move with
    | write v => exact ih (s.move (.write v))
    | add x here =>
      have hrest := ih (s.move (.add x here))
      have hadd := s.machine.registers.toNat_index_addIndex x
      have hmoved : (s.move (.add x here)).machine.registers = s.machine.registers.addIndex x := rfl
      have hall : s.moveAll (.add x here :: rest) = (s.move (.add x here)).moveAll rest := rfl
      rw [hmoved, hadd] at hrest
      -- Once the index is held at 65535 the values that follow leave it there.
      rw [hall, hrest, addends, List.sum_cons]
      omega

/-! ## Runs -/

theorem index_le_registersAfter (s : Session) (h : i.pointsIndex = false) :
    s.machine.registers.index.toNat ≤ (s.registersAfter i).index.toNat := by
  by_cases hsame : (s.registersAfter i).index = s.machine.registers.index
  · exact Nat.le_of_eq (congrArg UInt16.toNat hsame).symm
  · rcases s.index_of_changed i hsame with ⟨nnn, rfl⟩ | ⟨x, rfl⟩ | ⟨x, rfl⟩
    · cases h
    · have hlt := s.machine.registers.index.toNat_lt
      have hadd := s.machine.registers.toNat_index_addIndex x
      change _ ≤ (s.machine.registers.addIndex x).index.toNat
      omega
    · cases h

/-- Unless an execution points it elsewhere, the index of `t` is not below that of `s`, and neither is the index that
any of the executions finds. -/
def IndexGrows (s : Session) (executions : List Execution) (t : Session) : Prop :=
  (∀ e ∈ executions, e.instruction.pointsIndex = false) →
    s.machine.registers.index.toNat ≤ t.machine.registers.index.toNat ∧
      ∀ e ∈ executions,
        s.machine.registers.index.toNat ≤ e.before.machine.registers.index.toNat

theorem indexGrows_of_same (h : t.machine.registers = s.machine.registers) : s.IndexGrows [] t :=
  fun _ => ⟨Nat.le_of_eq (congrArg (fun r => r.index.toNat) h).symm,
    fun _ he => absurd he List.not_mem_nil⟩

theorem indexGrows_composes : Composes IndexGrows where
  refl _ := indexGrows_of_same rfl
  trans := by
    intro s t u first second hs ht hnone
    obtain ⟨hst, hfirst⟩ := hs fun e he => hnone e (List.mem_append_left second he)
    obtain ⟨htu, hsecond⟩ := ht fun e he => hnone e (List.mem_append_right first he)
    refine ⟨Nat.le_trans hst htu, fun e he => ?_⟩
    rcases List.mem_append.mp he with he | he
    · exact hfirst e he
    · exact Nat.le_trans hst (hsecond e he)
  execution := by
    intro e hnone
    constructor
    · rw [execute_done_eq e.done]
      exact e.before.index_le_registersAfter (hnone e List.mem_cons_self)
    · intro e' he'
      obtain rfl := List.mem_singleton.mp he'
      exact Nat.le_refl _
  setPc _ _ := indexGrows_of_same rfl
  count _ := indexGrows_of_same rfl
  setTimers _ _ := indexGrows_of_same rfl

/-- Nothing that a host does lowers the index, but for the instructions that point it elsewhere. -/
theorem fits_indexGrows (a : Action) : a.Fits IndexGrows := by
  refine Action.fits_of_same (fun h => indexGrows_of_same (congrArg Machine.registers h)) ?_
  intro image _ s
  have hregisters : (s.machine.load image).state.registers = s.machine.registers := by
    rcases s.machine.load_state_cases image with hsame | ⟨memory, hloaded⟩
    · rw [hsame]
    · rw [hloaded]
  exact indexGrows_of_same hregisters

theorem indexGrows_actAll (s : Session) (actions : List Action) :
    s.IndexGrows (s.executionsAll actions) (s.actAll actions) :=
  indexGrows_composes.actAll s fun a _ => fits_indexGrows a

/-- No sprite, no digits and no registers fit past the end of memory, not even a sprite of no rows. -/
theorem refusal_past_end (h : 4096 < s.machine.registers.index.toNat)
    (hreach : i.reach?.isSome = true) (here : Address) :
    s.machine.refusal? i here =
      some (.addressOutOfBounds s.machine.registers.index.toNat here) := by
  obtain ⟨n, hn⟩ := Option.isSome_iff_exists.mp hreach
  have hmax : max s.machine.registers.index.toNat Memory.size = s.machine.registers.index.toNat :=
    Nat.max_eq_left (Nat.le_of_lt h)
  rw [Machine.refusal_of_reach hn, Machine.overreach_of_lt (Nat.lt_add_right n h), hmax]

end Session

/-- What is done past the end of memory does not use memory at the index. -/
theorem Execution.reach_of_past_end (e : Execution)
    (h : 4096 < e.before.machine.registers.index.toNat) : e.instruction.reach? = none := by
  cases hreach : e.instruction.reach? with
  | none => rfl
  | some n =>
    have hsome : e.instruction.reach?.isSome = true := by
      rw [hreach]
      rfl
    have hnone := (Session.execute_done_iff.mp ⟨_, e.done⟩).2
    rw [Session.refusal_past_end h hsome e.here] at hnone
    cases hnone

namespace Session

/-- After any sequence of Fx1E, V being written in between or not, the index is the first one with all the values added,
or 65535 if that is less. Each of them sets VF if the index comes to 4096 or more, and leaves VF alone otherwise. So
whatever a host does with a machine whose index is above 4096, as long as no Annn and no Fx29 is executed the index
never decreases, no Dxyn, Fx33, Fx55 or Fx65 is done, and any that is reached fails at the address in the index. -/
theorem index_stays_past_end :
    (∀ (s : Session) (moves : List IndexMove),
      (s.moveAll moves).machine.registers.index.toNat =
        min 65535 (s.machine.registers.index.toNat + (s.addends moves).sum)) ∧
    (∀ (s : Session) (x : UInt8) (here : Address), ∃ t, s.execute (.addIndex x) here = .done t ∧
      t.machine.registers.index.toNat =
        min 65535 (s.machine.registers.index.toNat + (s.machine.registers.get x).toNat) ∧
      t.machine.registers.flag =
        if 4096 ≤ t.machine.registers.index.toNat then 1 else s.machine.registers.flag) ∧
    ∀ (s : Session) (actions : List Action), 4096 < s.machine.registers.index.toNat →
      (∀ e ∈ s.executionsAll actions, e.instruction.pointsIndex = false) →
      let t := s.actAll actions
      (∀ first second, actions = first ++ second →
        (s.actAll first).machine.registers.index.toNat ≤ t.machine.registers.index.toNat) ∧
      (∀ e ∈ s.executionsAll actions, e.instruction.reach? = none ∧
        s.machine.registers.index.toNat ≤ e.before.machine.registers.index.toNat) ∧
      (∀ w i, t.machine.fetch = .ok (w, i) → i.reach?.isSome = true →
        t.step = .faulted
          (.addressOutOfBounds t.machine.registers.index.toNat t.machine.pc) t) ∧
      ∀ i here, ¬ t.Traps i → i.reach?.isSome = true →
        t.execute i here = .faulted
          (.addressOutOfBounds t.machine.registers.index.toNat here) t := by
  refine ⟨toNat_index_moveAll, fun s x here => ⟨_, rfl, ?_, ?_⟩, ?_⟩
  · exact s.machine.registers.toNat_index_addIndex x
  · exact s.machine.registers.flag_addIndex x
  · intro s actions hstart hnone t
    obtain ⟨hend, hbefore⟩ := s.indexGrows_actAll actions hnone
    have hpast : 4096 < t.machine.registers.index.toNat := Nat.lt_of_lt_of_le hstart hend
    refine ⟨?_, fun e he => ⟨?_, hbefore e he⟩, ?_, ?_⟩
    · rintro first second rfl
      rw [executionsAll_append] at hnone
      have hsecond := (s.actAll first).indexGrows_actAll second fun e he =>
        hnone e (List.mem_append_right _ he)
      rw [← actAll_append] at hsecond
      exact hsecond.1
    · have hfound := Nat.lt_of_lt_of_le hstart (hbefore e he)
      exact e.reach_of_past_end hfound
    · intro w i hfetch hreach
      refine step_faulted_iff.mpr ⟨?_, rfl⟩
      rw [Machine.fault_of_fetched hfetch]
      exact refusal_past_end hpast hreach _
    · intro i here htraps hreach
      exact execute_faulted_iff.mpr ⟨htraps, refusal_past_end hpast hreach here, rfl⟩

/-- A session far past the end of memory that adds V0 to its index. -/
def highIndex : Session where
  machine := { Machine.ofSeed 7 with
    memory := Memory.fresh.putAll 0x200 [0xF0, 0x1E]
    registers := ⟨Vector.replicate 16 200, 0xFF80⟩ }
  keypad := Keypad.untouched

/-- An Fx1E in a step and one made by hand, and then an image that draws a sprite of no rows. -/
def indexRun : List Action :=
  [.operation .step, .operation (.tick 2), .execute (.addIndex 15) 0x300,
    .operation (.load ⟨[0xD0, 0x00]⟩)]

theorem executions_highIndex :
    (highIndex.executionsAll indexRun).map Execution.instruction = [.addIndex 0, .addIndex 15] := by
  decide +kernel

theorem highIndex_actAll :
    (highIndex.actAll indexRun).machine.pc = 0x200 ∧
      (highIndex.actAll indexRun).machine.wordAtPc = 0xD000 ∧
      (highIndex.actAll indexRun).machine.registers.index = 0xFFFF := by
  decide +kernel

/-- The index is held at the greatest address, where neither the sprite of no rows nor four registers fit. -/
theorem index_stays_past_end_saturated :
    (highIndex.moveAll [.add 0 0x300, .write (Vector.replicate 16 9), .add 15 0x302]
      ).machine.registers.index.toNat = min 65535 (0xFF80 + (200 + 9)) ∧
    (∃ t, highIndex.execute (.addIndex 15) 0x300 = .done t ∧ t.machine.registers.flag = 1) ∧
    4096 < highIndex.machine.registers.index.toNat ∧
    (∀ e ∈ highIndex.executionsAll indexRun, e.instruction.pointsIndex = false) ∧
    let t := highIndex.actAll indexRun
    highIndex.machine.registers.index.toNat ≤ t.machine.registers.index.toNat ∧
      t.step = .faulted (.addressOutOfBounds 0xFFFF 0x200) t ∧
      t.execute (.storeRegisters 3) 0x300 = .faulted (.addressOutOfBounds 0xFFFF 0x300) t := by
  obtain ⟨hsums, hadd, hrun⟩ := index_stays_past_end
  have hstart : 4096 < highIndex.machine.registers.index.toNat := by decide
  have hnone : ∀ e ∈ highIndex.executionsAll indexRun, e.instruction.pointsIndex = false := by
    intro e he
    have hmem := List.mem_map_of_mem (f := Execution.instruction) he
    rw [executions_highIndex] at hmem
    simp only [List.mem_cons, List.not_mem_nil, or_false] at hmem
    obtain h | h := hmem
    · rw [h]
      rfl
    · rw [h]
      rfl
  obtain ⟨t, ht, hindex, hflag⟩ := hadd highIndex 15 0x300
  rw [hindex, if_pos (by decide)] at hflag
  obtain ⟨hgrows, _, hstep, hexecute⟩ := hrun highIndex indexRun hstart hnone
  obtain ⟨hpc, hword, hlast⟩ := highIndex_actAll
  have hfetch : (highIndex.actAll indexRun).machine.fetch = .ok (0xD000, .draw 0 0 0) :=
    Machine.fetch_eq_ok_iff.mpr ⟨by rw [hpc]; decide, hword.symm, by rw [hword]; decide⟩
  have hfault := hstep _ _ hfetch rfl
  have hrefused := hexecute (.storeRegisters 3) 0x300 (Nat.not_lt.mpr (by decide)) rfl
  rw [hpc] at hfault
  rw [hlast] at hfault hrefused
  exact ⟨hsums highIndex _, ⟨t, ht, hflag⟩, hstart, hnone, hgrows [] indexRun rfl, hfault, hrefused⟩

end Session

end Chip8
