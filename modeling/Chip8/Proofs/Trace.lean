import Chip8.Proofs.Event
import Chip8.Proofs.Stepping

/-!
# Traces

What the steps among a list of events come to: how each of them ends, which instructions they execute, and where
they lead if all of them are done.
-/
namespace Chip8.Session

/-- The instruction that a step executes. A step that fails executes none. -/
def executed? (s : Session) : Option Instruction :=
  match s.machine.fetch, s.step with
  | .ok (_, i), .done _ => some i
  | _, _ => none

def executedBy (s : Session) : Event → List Instruction
  | .step => s.executed?.toList
  | _ => []

/-- The instructions that the steps among the events execute, the first one first. -/
def executed (s : Session) : List Event → List Instruction
  | [] => []
  | e :: rest => s.executedBy e ++ (s.after e).executed rest

def outcomesOf (s : Session) : Event → List (Outcome Session)
  | .step => [s.step]
  | _ => []

/-- How each of the steps among the events ends, with the session that it leaves. -/
def outcomes (s : Session) : List Event → List (Outcome Session)
  | [] => []
  | e :: rest => s.outcomesOf e ++ (s.after e).outcomes rest

/-- The session after an event, unless it is a step that fails. -/
def after? (s : Session) : Event → Option Session
  | .step =>
    match s.step with
    | .done t => some t
    | _ => none
  | e => some (s.after e)

/-- The session after a list of events, if all steps among them are done. -/
def play? (s : Session) (events : List Event) : Option Session := events.foldlM after? s

/-- The session after `n` steps, if all of them are done. -/
def steps? (s : Session) (n : Nat) : Option Session := s.play? (List.replicate n .step)

variable {s t : Session} {w : Word} {i : Instruction} {f : Fault} {e : Event}

theorem executed?_eq_some_iff :
    s.executed? = some i ↔ (∃ w, s.machine.fetch = .ok (w, i)) ∧ ∃ t, s.step = .done t := by
  unfold executed?
  cases hf : s.machine.fetch with
  | error f => simp
  | ok p =>
    obtain ⟨w, j⟩ := p
    cases hs : s.step with
    | done t => simp
    | faulted f t => simp
    | trapped trap t => simp

theorem executed?_of_done (hf : s.machine.fetch = .ok (w, i)) (hs : s.step = .done t) :
    s.executed? = some i := executed?_eq_some_iff.mpr ⟨⟨w, hf⟩, ⟨t, hs⟩⟩

theorem executed?_of_faulted (hs : s.step = .faulted f t) : s.executed? = none := by
  apply Option.eq_none_iff_forall_ne_some.mpr
  intro i h
  obtain ⟨_, u, hu⟩ := executed?_eq_some_iff.mp h
  rw [hs] at hu
  cases hu

theorem after_step_of_done (hs : s.step = .done t) : s.after .step = t :=
  congrArg Outcome.state hs

/-- A step that fails might as well not have been taken. -/
theorem after_step_of_faulted (hs : s.step = .faulted f t) : s.after .step = s :=
  (congrArg Outcome.state hs).trans (step_faulted_iff.mp hs).2

theorem after?_step_of_done (hs : s.step = .done t) : s.after? .step = some t := by
  rw [after?, hs]

theorem after?_step_of_faulted (hs : s.step = .faulted f t) : s.after? .step = none := by
  rw [after?, hs]

theorem after_of_after? (h : s.after? e = some t) : s.after e = t := by
  cases e with
  | step =>
    cases hs : s.step with
    | done u =>
      rw [after?_step_of_done hs] at h
      cases h
      exact after_step_of_done hs
    | faulted f u =>
      rw [after?_step_of_faulted hs] at h
      cases h
    | trapped trap u => exact absurd hs step_ne_trapped
  | tick n => exact Option.some.inj h
  | keypad k => exact Option.some.inj h
  | edit u => exact Option.some.inj h

theorem play?_cons (s : Session) (e : Event) (rest : List Event) :
    s.play? (e :: rest) = (s.after? e).bind fun t => t.play? rest := List.foldlM_cons

theorem play?_append (s : Session) (first second : List Event) :
    s.play? (first ++ second) = (s.play? first).bind fun t => t.play? second := List.foldlM_append

theorem play_of_play? {events : List Event} (h : s.play? events = some t) : s.play events = t := by
  induction events generalizing s with
  | nil => exact Option.some.inj h
  | cons e rest ih =>
    rw [play?_cons] at h
    obtain ⟨u, hu, hrest⟩ := Option.bind_eq_some_iff.mp h
    rw [play_cons, after_of_after? hu]
    exact ih hrest

theorem steps?_add (s : Session) (m n : Nat) :
    s.steps? (m + n) = (s.steps? m).bind fun t => t.steps? n := by
  rw [steps?, ← List.replicate_append_replicate, play?_append]
  rfl

theorem steps?_succ_of_done (hs : s.step = .done t) (n : Nat) :
    s.steps? (n + 1) = t.steps? n := by
  rw [steps?, List.replicate_succ, play?_cons, after?_step_of_done hs]
  rfl

theorem steps?_succ_of_faulted (hs : s.step = .faulted f t) (n : Nat) :
    s.steps? (n + 1) = none := by
  rw [steps?, List.replicate_succ, play?_cons, after?_step_of_faulted hs]
  rfl

end Chip8.Session
