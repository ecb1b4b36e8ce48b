import Chip8.Proofs.Iteration
import Chip8.Proofs.Listing

/-!
# The log of a run

A run records its start, then every word that it fetches and decodes, before the word is executed, and at last how it
ended. So the log has a trace for each step that is done. The step that fails has one too if it failed in execution, and
none if there was nothing to execute. Each trace is the line that a listing has for the word.
-/
namespace Chip8

open Text

/-- The record of the word at the program counter. -/
def Machine.announcement (m : Machine) : Log.Record := .executing m.pc m.wordAtPc

/-- The session that step number `k` of a run meets, once the timers have ticked for it. -/
def Session.met (s : Session) (ticks : Nat → Nat) (k : Nat) : Session :=
  (s.play (Run.rounds ticks 0 k)).after (.tick (ticks k))

/-- The records of the words that the first `n` steps of a run meet. -/
def Session.announcements (s : Session) (ticks : Nat → Nat) (n : Nat) : List Log.Record :=
  (List.range n).map fun k => (s.met ticks k).machine.announcement

namespace Log

end Log

namespace Run

variable {ticks : Nat → Nat} {r : Run} {w : Word} {i : Instruction} {f : Fault}

theorem rounds_succ (ticks : Nat → Nat) (first n : Nat) :
    rounds ticks first (n + 1) = rounds ticks first n ++ [.tick (ticks (first + n)), .step] :=
  rounds_add ticks first n 1

theorem traceFetch_of_ok (h : r.session.machine.fetch = .ok (w, i)) :
    r.traceFetch = r.record r.session.machine.announcement := by
  obtain ⟨_, rfl, _⟩ := Machine.fetch_eq_ok_iff.mp h
  rw [traceFetch, h]
  rfl

theorem traceFetch_of_error (h : r.session.machine.fetch = .error f) : r.traceFetch = r := by
  rw [traceFetch, h]

/-- The words that a run has fetched when its next step is over. -/
def fetchedNext (r : Run) : Nat :=
  match r.session.machine.fetch with
  | .ok _ => r.steps + 1
  | .error _ => r.steps

theorem fetchedNext_of_ok (h : r.session.machine.fetch = .ok (w, i)) :
    r.fetchedNext = r.steps + 1 := by
  rw [fetchedNext, h]

theorem fetchedNext_of_error (h : r.session.machine.fetch = .error f) :
    r.fetchedNext = r.steps := by
  rw [fetchedNext, h]

end Run

namespace Session

variable {s t : Session} {ticks : Nat → Nat} {n : Nat}

theorem announcements_succ (s : Session) (ticks : Nat → Nat) (n : Nat) :
    s.announcements ticks (n + 1) =
      s.announcements ticks n ++ [(s.met ticks n).machine.announcement] := by
  rw [announcements, List.range_succ, List.map_append]
  rfl

theorem play_rounds_succ (s : Session) (ticks : Nat → Nat) (n : Nat) :
    s.play (Run.rounds ticks 0 (n + 1)) = (s.met ticks n).after .step := by
  rw [Run.rounds_succ, Nat.zero_add, List.append_cons, play_concat, play_concat, met]

end Session

namespace Run

variable {s t : Session} {ticks : Nat → Nat} {r : Run}

/-- A run of the session `s` that goes on: it has recorded its start and the words of its steps. -/
structure Logging (s : Session) (ticks : Nat → Nat) (r : Run) : Prop where
  session : r.session = s.play (rounds ticks 0 r.steps)
  log : r.log.toList = .running s.machine.config.rate s.machine.config.limit ::
    s.announcements ticks r.steps

theorem Logging.met (h : Logging s ticks r) :
    (r.tick (ticks r.steps)).session = s.met ticks r.steps := by
  rw [Session.met, ← h.session]
  rfl

/-- The next step records its word before it is known whether it can be executed. -/
theorem Logging.traceFetch (h : Logging s ticks r) :
    (r.tick (ticks r.steps)).traceFetch.log.toList =
      .running s.machine.config.rate s.machine.config.limit ::
        s.announcements ticks (r.tick (ticks r.steps)).fetchedNext := by
  cases hfetch : (r.tick (ticks r.steps)).session.machine.fetch with
  | ok p =>
    have hpush : ∀ entry, (Run.record (r.tick (ticks r.steps)) entry).log.toList =
        r.log.toList ++ [entry] := fun _ => Array.toList_push
    rw [traceFetch_of_ok hfetch, fetchedNext_of_ok hfetch, hpush, h.log, h.met,
      Session.announcements_succ]
    rfl
  | error f =>
    rw [traceFetch_of_error hfetch, fetchedNext_of_error hfetch]
    exact h.log

theorem Logging.done (h : Logging s ticks r)
    (hs : (r.tick (ticks r.steps)).session.step = .done t) :
    Logging s ticks
      { (r.tick (ticks r.steps)).traceFetch with session := t, steps := r.steps + 1 } := by
  obtain ⟨w, i, _, hfetch, _⟩ := Session.step_done hs
  have hlog := h.traceFetch
  rw [fetchedNext_of_ok hfetch] at hlog
  refine ⟨?_, hlog⟩
  rw [h.met] at hs
  rw [Session.play_rounds_succ, Session.after_step_of_done hs]

end Run

namespace Run

variable {s : Session} {ticks : Nat → Nat} {q : Run} {p : Progress} {why : Stop} {patience : Nat}

end Run

namespace Session

variable {s : Session} {ticks : Nat → Nat} {patience n k : Nat}

end Session

end Chip8
