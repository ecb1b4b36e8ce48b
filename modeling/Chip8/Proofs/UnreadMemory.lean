import Chip8.Proofs.Footprint
import Chip8.Proofs.Trace
import Mathlib.Data.List.Forall2

/-!
# Memory that is not read

A byte that no step reads makes no difference. Sessions that are the same but for this byte take the same steps, end
with the same faults and stay the same but for it. When an instruction writes over it, they become the same altogether.
-/
namespace Chip8

/-- How many bytes an instruction reads at the index. -/
def Instruction.readLength : Instruction → Nat
  | draw _ _ n => n.toNat
  | loadRegisters x => x.toNat + 1
  | _ => 0

/-- Whether an execution reads the byte at an address. -/
def Execution.Reads (e : Execution) (a : Nat) : Prop :=
  e.before.machine.registers.index.toNat ≤ a ∧
    a < e.before.machine.registers.index.toNat + e.instruction.readLength

instance (e : Execution) (a : Nat) : Decidable (e.Reads a) :=
  inferInstanceAs (Decidable (_ ∧ _))

/-- Outcomes that end in the same way, with the same fault or trap, and leave related states. -/
inductive Outcome.Related {σ : Type} (R : σ → σ → Prop) : Outcome σ → Outcome σ → Prop where
  | done {s t : σ} (h : R s t) : Related R (.done s) (.done t)
  | faulted {s t : σ} (f : Fault) (h : R s t) : Related R (.faulted f s) (.faulted f t)
  | trapped {s t : σ} (trap : Trap) (h : R s t) : Related R (.trapped trap s) (.trapped trap t)

theorem Outcome.Related.state {σ : Type} {R : σ → σ → Prop} {o o' : Outcome σ}
    (h : Related R o o') : R o.state o'.state := by
  cases h with
  | done h | faulted _ h | trapped _ h => exact h

namespace Machine

variable {m m' : Machine} {i : Instruction}

/-- What is fetched depends on the program counter and on the two bytes there. -/
theorem fetch_congr (hpc : m'.pc = m.pc) (hword : m'.wordAtPc = m.wordAtPc) :
    m'.fetch = m.fetch := by
  by_cases hp : m.pc.toNat ≤ 0xFFE
  · have hp' : m'.pc.toNat ≤ 0xFFE := by rwa [hpc]
    cases hd : Instruction.decode m.wordAtPc with
    | none =>
      rw [fetch_of_undecodable hp hd, fetch_of_undecodable hp' (by rwa [hword]), hpc, hword]
    | some i => rw [fetch_of_decoded hp hd, fetch_of_decoded hp' (by rwa [hword]), hword]
  · have hlt := Nat.lt_of_not_le hp
    rw [fetch_of_lt hlt, fetch_of_lt (by rwa [hpc]), hpc]

/-- An instruction whose operands are in range writes all that it is there to write. -/
theorem length_stored_of_inRange (m : Machine) (hi : i.InRange) :
    (m.stored i).length = i.writeLength := by
  cases i with
  | storeRegisters x =>
    have hx : x.toNat < 16 := hi
    have hlength : m.registers.toList.length = 16 := Vector.length_toList
    exact List.length_take_of_le (by rw [hlength]; exact hx)
  | _ => rfl

end Machine

namespace Session

/-- The session with another memory. -/
def withMemory (s : Session) (memory : Memory) : Session :=
  { s with machine := { s.machine with memory := memory } }

/-- Sessions that are the same but for the byte at an address. -/
structure SameBut (a : Nat) (s t : Session) : Prop where
  rest : t = s.withMemory t.machine.memory
  bytes : ∀ b, b ≠ a → t.machine.memory.byte b = s.machine.memory.byte b

/-- Whether the next step reads the byte at an address. -/
def Reads (s : Session) (a : Nat) : Prop :=
  a = s.machine.pc.toNat ∨ a = s.machine.pc.toNat + 1 ∨ ∃ e ∈ s.stepExecution?, e.Reads a

instance (s : Session) (a : Nat) : Decidable (s.Reads a) :=
  inferInstanceAs (Decidable (_ ∨ _ ∨ _))

def steppedBy (s : Session) : Event → List Session
  | .step => [s]
  | _ => []

/-- The sessions in which the steps among the events are taken. -/
def stepped (s : Session) : List Event → List Session
  | [] => []
  | e :: rest => s.steppedBy e ++ (s.after e).stepped rest

variable {s t : Session} {i : Instruction} {here : Address} {a : Nat}

theorem stepped_append (s : Session) (first second : List Event) :
    s.stepped (first ++ second) = s.stepped first ++ (s.play first).stepped second := by
  induction first generalizing s with
  | nil => rfl
  | cons e rest ih =>
    rw [List.cons_append, stepped, stepped, ih, List.append_assoc]
    rfl

/-- An instruction takes from memory only what it reads at the index. -/
theorem effect_withMemory (s : Session) (memory : Memory) (i : Instruction) (here : Address)
    (hread : ∀ j < i.readLength, memory.byte (s.machine.registers.index.toNat + j) =
      s.machine.memory.byte (s.machine.registers.index.toNat + j)) :
    (s.withMemory memory).effect i here = (s.effect i here).withMemory
      (memory.putAll s.machine.registers.index.toNat (s.machine.stored i)) := by
  have hbytes : ∀ n ≤ i.readLength,
      (s.withMemory memory).machine.bytesAtIndex n = s.machine.bytesAtIndex n := by
    intro n hn
    apply List.map_congr_left
    intro j hj
    exact hread j (Nat.lt_of_lt_of_le (List.mem_range.mp hj) hn)
  -- Only Dxyn and Fx65 look at memory. All others come to the same by computation.
  cases i with
  | draw x y n =>
    have hdrawing : (s.withMemory memory).machine.drawing x y n = s.machine.drawing x y n := by
      rw [Machine.drawing, hbytes n.toNat (Nat.le_refl _)]
      rfl
    simp only [effect, registersAfter, Machine.screenAfter, hdrawing]
    rfl
  | loadRegisters x =>
    simp only [effect, registersAfter, hbytes (x.toNat + 1) (Nat.le_refl _)]
    rfl
  | _ => rfl

theorem SameBut.pc (h : s.SameBut a t) : t.machine.pc = s.machine.pc :=
  congrArg (fun u => u.machine.pc) h.rest

/-- What has nothing to do with memory leaves the sessions the same but for the byte. -/
theorem SameBut.map (h : s.SameBut a t) {f : Session → Session}
    (hf : ∀ u memory, f (u.withMemory memory) = (f u).withMemory memory)
    (hmemory : ∀ u, (f u).machine.memory = u.machine.memory) : (f s).SameBut a (f t) := by
  constructor
  · rw [hmemory t, ← hf, ← h.rest]
  · intro b hb
    rw [hmemory t, hmemory s]
    exact h.bytes b hb

theorem SameBut.effect (h : s.SameBut a t) (i : Instruction) (here : Address)
    (hread : ∀ j < i.readLength, s.machine.registers.index.toNat + j ≠ a) :
    (s.effect i here).SameBut a (t.effect i here) := by
  have heffect := s.effect_withMemory t.machine.memory i here fun j hj => h.bytes _ (hread j hj)
  rw [← h.rest] at heffect
  constructor
  · rw [heffect]
    rfl
  · intro b hb
    rw [heffect]
    show (t.machine.memory.putAll _ _).byte b = (s.machine.memory.putAll _ _).byte b
    rw [Memory.byte_putAll, Memory.byte_putAll, h.bytes b hb]

/-- What is written over the byte is the same in both. -/
theorem SameBut.effect_eq (h : s.SameBut a t) (hi : i.InRange) (here : Address)
    (hread : ∀ j < i.readLength, s.machine.registers.index.toNat + j ≠ a)
    (hcovers : s.machine.Covers i a) : s.effect i here = t.effect i here := by
  have heffect := s.effect_withMemory t.machine.memory i here fun j hj => h.bytes _ (hread j hj)
  have hlength := s.machine.length_stored_of_inRange hi
  have hmemory : s.machine.memoryAfter i =
      t.machine.memory.putAll s.machine.registers.index.toNat (s.machine.stored i) := by
    apply Memory.ext_byte
    intro b hb
    rw [Machine.memoryAfter, Memory.byte_putAll, Memory.byte_putAll]
    by_cases hba : b = a
    · subst hba
      have hinside := hcovers.2
      rw [← hlength] at hinside
      rw [if_pos ⟨hcovers.1, hinside, hb⟩, if_pos ⟨hcovers.1, hinside, hb⟩]
    · rw [h.bytes b hba]
  rw [← h.rest, ← hmemory] at heffect
  exact heffect.symm

theorem SameBut.fetch (h : s.SameBut a t) (hread : ¬ s.Reads a) :
    t.machine.fetch = s.machine.fetch := by
  apply Machine.fetch_congr h.pc
  have hfirst := h.bytes s.machine.pc.toNat fun heq => hread (Or.inl heq.symm)
  have hsecond := h.bytes (s.machine.pc.toNat + 1) fun heq => hread (Or.inr (Or.inl heq.symm))
  rw [Machine.wordAtPc, h.pc, hfirst, hsecond]
  rfl

theorem SameBut.fault (h : s.SameBut a t) (hread : ¬ s.Reads a) :
    t.machine.fault? = s.machine.fault? := by
  rw [Machine.fault?, Machine.fault?, h.fetch hread, h.rest]
  rfl

theorem index_ne_of_not_reads {e : Execution} (he : e ∈ s.stepExecution?) (hread : ¬ s.Reads a) :
    ∀ j < e.instruction.readLength, e.before.machine.registers.index.toNat + j ≠ a := by
  rintro j hj rfl
  exact hread (Or.inr (Or.inr ⟨e, he, Nat.le_add_right _ _, Nat.add_lt_add_left hj _⟩))

/-- A step that does not read the byte ends in the same way with any other byte in its place. If it writes over it, it
leaves the same session. -/
theorem SameBut.step (h : s.SameBut a t) (hread : ¬ s.Reads a) :
    Outcome.Related (SameBut a) s.step t.step ∧
      ((∃ e ∈ s.stepExecution?, e.Covers a) → s.step = t.step) := by
  have hfault := h.fault hread
  cases hs : s.step with
  | done u =>
    obtain ⟨v, hv⟩ := step_done_iff.mpr (hfault.trans (step_done_iff.mp ⟨u, hs⟩))
    obtain ⟨w, i, hfetch, rfl⟩ := step_done_eq hs
    obtain ⟨w', i', hfetch', rfl⟩ := step_done_eq hv
    obtain ⟨e, he, hbefore, ⟨w'', hinstruction⟩, _⟩ := stepExecution?_of_done hs
    -- All three fetches bring the same instruction.
    rw [h.fetch hread, hfetch] at hfetch'
    rw [hfetch] at hinstruction
    cases hfetch'
    cases hinstruction
    have hahead : s.ahead.SameBut a t.ahead := h.map (fun _ _ => rfl) fun _ => rfl
    have hunread := index_ne_of_not_reads he hread
    rw [hbefore] at hunread
    rw [hv, h.pc]
    constructor
    · have heffect := hahead.effect e.instruction s.machine.pc hunread
      exact Outcome.Related.done (heffect.map (f := count) (fun _ _ => rfl) fun _ => rfl)
    · rintro ⟨e', he', hcovers⟩
      cases he.symm.trans he'
      rw [Execution.Covers, hbefore] at hcovers
      have hi := Instruction.decode_inRange (Machine.fetch_eq_ok_iff.mp hfetch).2.2
      rw [hahead.effect_eq hi s.machine.pc hunread hcovers]
  | faulted f u =>
    obtain ⟨hf, rfl⟩ := step_faulted_iff.mp hs
    rw [step_faulted_iff.mpr ⟨hfault.trans hf, rfl⟩]
    refine ⟨Outcome.Related.faulted f h, ?_⟩
    rintro ⟨e, he, _⟩
    rw [stepExecution?_of_faulted hs] at he
    cases he
  | trapped trap u => exact absurd hs step_ne_trapped

theorem SameBut.after (h : s.SameBut a t) {e : Event} (hpassive : e.IsPassive)
    (hread : ∀ u ∈ s.steppedBy e, ¬ u.Reads a) :
    List.Forall₂ (Outcome.Related (SameBut a)) (s.outcomesOf e) (t.outcomesOf e) ∧
      (s.after e).SameBut a (t.after e) ∧
      ((∃ x ∈ s.executionsBy e, x.Covers a) → s.after e = t.after e) := by
  have hnone : ¬ ∃ x ∈ ([] : List Execution), x.Covers a := by
    rintro ⟨x, hx, _⟩
    exact absurd hx List.not_mem_nil
  cases e with
  | step =>
    obtain ⟨houtcome, hcovered⟩ := h.step (hread s List.mem_cons_self)
    refine ⟨List.Forall₂.cons houtcome List.Forall₂.nil, houtcome.state, ?_⟩
    rintro ⟨x, hx, hcovers⟩
    exact congrArg Outcome.state (hcovered ⟨x, Option.mem_toList.mp hx, hcovers⟩)
  | tick n =>
    have htick := h.map (f := fun u => u.after (.tick n)) (fun _ _ => rfl) fun _ => rfl
    exact ⟨List.Forall₂.nil, htick, fun hx => absurd hx hnone⟩
  | keypad k =>
    have hkeypad := h.map (f := fun u => u.after (.keypad k)) (fun _ _ => rfl) fun _ => rfl
    exact ⟨List.Forall₂.nil, hkeypad, fun hx => absurd hx hnone⟩
  | edit u => exact hpassive.elim

/-- The induction over the events. Once the sessions are the same they remain so, whatever is read. -/
theorem SameBut.play (h : s.SameBut a t) {events : List Event}
    (hpassive : ∀ e ∈ events, e.IsPassive) (hread : ∀ u ∈ s.stepped events, ¬ u.Reads a) :
    List.Forall₂ (Outcome.Related (SameBut a)) (s.outcomes events) (t.outcomes events) ∧
      (s.play events).SameBut a (t.play events) ∧
      ((∃ x ∈ s.executions events, x.Covers a) → s.play events = t.play events) := by
  induction events generalizing s t with
  | nil =>
    refine ⟨List.Forall₂.nil, h, ?_⟩
    rintro ⟨x, hx, _⟩
    exact absurd hx List.not_mem_nil
  | cons e rest ih =>
    obtain ⟨houtcomes, hafter, hcovered⟩ := h.after (hpassive e List.mem_cons_self)
      fun u hu => hread u (List.mem_append_left _ hu)
    have hpassive' : ∀ e' ∈ rest, e'.IsPassive :=
      fun e' he' => hpassive e' (List.mem_cons_of_mem e he')
    obtain ⟨hrest, hend, hlater⟩ := ih hafter hpassive'
      fun u hu => hread u (List.mem_append_right _ hu)
    refine ⟨List.rel_append houtcomes hrest, hend, ?_⟩
    rintro ⟨x, hx, hcovers⟩
    rcases List.mem_append.mp hx with hx | hx
    · exact congrArg (fun u : Session => u.play rest) (hcovered ⟨x, hx, hcovers⟩)
    · exact hlater ⟨x, hx, hcovers⟩

/-- Let two sessions be the same but for the byte at an address, and let no step that the first one takes among some
events read it: neither a fetch, nor the drawing of a sprite, nor Fx65. Then each step of the other one ends in the same
way and leaves the same session but for this byte, and from the step on in which an Fx33 or an Fx55 writes over it the
sessions are the same altogether. -/
theorem unread_byte_has_no_influence (a : Nat) (s t : Session) (events : List Event)
    (hsame : s.SameBut a t) (hpassive : ∀ e ∈ events, e.IsPassive)
    (hunread : ∀ u ∈ s.stepped events, ¬ u.Reads a) :
    List.Forall₂ (Outcome.Related (SameBut a)) (s.outcomes events) (t.outcomes events) ∧
      ∀ before, before <+: events → (s.play before).SameBut a (t.play before) ∧
        ((∃ e ∈ s.executions before, e.Covers a) → s.play before = t.play before) := by
  constructor
  · exact (hsame.play hpassive hunread).1
  · rintro before ⟨rest, rfl⟩
    rw [stepped_append] at hunread
    have hbefore := hsame.play (fun e he => hpassive e (List.mem_append_left rest he))
      fun u hu => hunread u (List.mem_append_left _ hu)
    exact hbefore.2

/-- Puts the digits of V1 at 0x300, where some value is left over, and comes to a zero word. -/
def leftover (value : UInt8) : Session where
  machine :=
    { Machine.ofSeed 7 with
      memory := (Memory.fresh.putAll 0x200 [0xA3, 0x00, 0xF1, 0x33]).put 0x300 value }
  keypad := Keypad.untouched

theorem sameBut_leftover (value value' : UInt8) :
    (leftover value).SameBut 0x300 (leftover value') where
  rest := rfl
  bytes := by
    intro b hb
    show (Memory.put _ _ _).byte b = (Memory.put _ _ _).byte b
    rw [Memory.byte_put, Memory.byte_put, if_neg fun h => hb h.1, if_neg fun h => hb h.1]

/-- Two steps that are done, and one that fails. -/
def overwriting : List Event := [.step, .tick 1, .step, .step]

/-- What stood at 0x300 makes no difference to the steps, and is forgotten after the second one. -/
theorem unread_byte_has_no_influence_overwritten :
    leftover 0 ≠ leftover 9 ∧ (leftover 0).SameBut 0x300 (leftover 9) ∧
      (∀ e ∈ overwriting, e.IsPassive) ∧
      (∀ u ∈ (leftover 0).stepped overwriting, ¬ u.Reads 0x300) ∧
      List.Forall₂ (Outcome.Related (SameBut 0x300)) ((leftover 0).outcomes overwriting)
        ((leftover 9).outcomes overwriting) ∧
      (leftover 0).play [.step, .tick 1, .step] = (leftover 9).play [.step, .tick 1, .step] := by
  have hsame := sameBut_leftover 0 9
  have hpassive : ∀ e ∈ overwriting, e.IsPassive := by
    simp [overwriting, Event.IsPassive]
  have hunread : ∀ u ∈ (leftover 0).stepped overwriting, ¬ u.Reads 0x300 := by decide +kernel
  have hcovered : ∃ e ∈ (leftover 0).executions [.step, .tick 1, .step], e.Covers 0x300 := by
    decide +kernel
  have hall := unread_byte_has_no_influence 0x300 (leftover 0) (leftover 9) overwriting hsame
    hpassive hunread
  have hbyte : ∀ value, (leftover value).machine.memory.byte 0x300 = value := by
    intro value
    show (Memory.put _ _ _).byte _ = value
    rw [Memory.byte_put, if_pos ⟨rfl, by decide⟩]
  refine ⟨?_, hsame, hpassive, hunread, hall.1, ?_⟩
  · intro heq
    have hvalues : (0 : UInt8) = 9 := by
      calc 0 = (leftover 0).machine.memory.byte 0x300 := (hbyte 0).symm
        _ = (leftover 9).machine.memory.byte 0x300 := by rw [heq]
        _ = 9 := hbyte 9
    exact absurd hvalues (by decide)
  · exact (hall.2 _ ⟨[.step], rfl⟩).2 hcovered

end Session

end Chip8
