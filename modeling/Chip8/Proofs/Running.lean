import Chip8.Machine.Run
import Chip8.Proofs.Frame

/-!
# Turns

A turn stops at the limit, stops with the fault of its step, or goes on after a step that is done. A run of turns
counts its steps as the machine does, and no turn ends in a trap.
-/
namespace Chip8

namespace Run

variable {r q : Run} {s : Session} {f : Fault}

theorem traceFetch_steps (r : Run) : r.traceFetch.steps = r.steps := by
  unfold traceFetch
  cases r.session.machine.fetch with
  | ok p => rfl
  | error f => rfl

theorem turn_of_limit (h : r.limitReached = true) :
    r.turn = .stopped .limit (r.record (.limitReached r.steps)) := by
  rw [turn, if_pos h]

theorem turn_of_done (h : r.limitReached = false) (hs : r.session.step = .done s) :
    r.turn = .underway { r.traceFetch with session := s, steps := r.steps + 1 } := by
  rw [turn, if_neg (by rw [h]; exact Bool.false_ne_true), step, hs]

theorem turn_of_faulted (h : r.limitReached = false) (hs : r.session.step = .faulted f s) :
    r.turn = .stopped (.fault f)
      (Run.record { r.traceFetch with session := s } (.halted r.steps f)) := by
  rw [turn, if_neg (by rw [h]; exact Bool.false_ne_true), step, hs]
  simp only [traceFetch_steps]

/-- What a turn can come to, with the session and the number of steps that it leaves. -/
theorem turn_cases (r : Run) :
    (∃ q, r.turn = .stopped .limit q ∧ q.session = r.session ∧ q.steps = r.steps) ∨
      (∃ f q, r.turn = .stopped (.fault f) q ∧ r.session.step = .faulted f r.session ∧
        q.session = r.session ∧ q.steps = r.steps) ∨
      ∃ q, r.turn = .underway q ∧ r.session.step = .done q.session ∧ q.steps = r.steps + 1 := by
  cases hl : r.limitReached with
  | true => exact Or.inl ⟨_, turn_of_limit hl, rfl, rfl⟩
  | false =>
    cases hs : r.session.step with
    | done t => exact Or.inr (Or.inr ⟨_, turn_of_done hl hs, rfl, rfl⟩)
    | faulted f t =>
      obtain ⟨_, rfl⟩ := Session.step_faulted_iff.mp hs
      exact Or.inr (Or.inl ⟨f, _, turn_of_faulted hl hs, rfl, rfl, r.traceFetch_steps⟩)
    | trapped trap t => exact absurd hs Session.step_ne_trapped

/-- A run `q` that `r` has come to in at most `patience` steps, counted by the run and by the machine alike. -/
structure Continues (r : Run) (patience : Nat) (q : Run) : Prop where
  steps : q.steps ≤ r.steps + patience
  cycles : q.session.machine.cycles + r.steps = r.session.machine.cycles + q.steps

theorem continues_of_same {patience : Nat} (hsteps : q.steps = r.steps)
    (hcycles : q.session.machine.cycles = r.session.machine.cycles) : r.Continues patience q :=
  ⟨by omega, by omega⟩

theorem turns_continues (ticks : Nat → Nat) (patience : Nat) (r : Run) :
    r.Continues patience (turns ticks patience r).run := by
  induction patience generalizing r with
  | zero => exact continues_of_same rfl rfl
  | succ patience ih =>
    rw [turns]
    rcases turn_cases (r.tick (ticks r.steps)) with
      ⟨q, hq, hsession, hsteps⟩ | ⟨f, q, hq, _, hsession, hsteps⟩ | ⟨q, hq, hdone, hsteps⟩
    · rw [hq]
      exact continues_of_same hsteps (congrArg (·.machine.cycles) hsession)
    · rw [hq]
      exact continues_of_same hsteps (congrArg (·.machine.cycles) hsession)
    · rw [hq]
      obtain ⟨_, _, _, _, hcycles, _⟩ := Session.step_framed hdone
      change q.session.machine.cycles = r.session.machine.cycles + 1 at hcycles
      change q.steps = r.steps + 1 at hsteps
      obtain ⟨hle, heq⟩ := ih q
      change r.Continues _ (turns ticks patience q).run
      exact ⟨by omega, by omega⟩

theorem turns_ne_trap (ticks : Nat → Nat) (patience : Nat) (r : Run) {trap : Trap} :
    turns ticks patience r ≠ .stopped (.trap trap) q := by
  induction patience generalizing r with
  | zero =>
    intro h
    cases h
  | succ patience ih =>
    rw [turns]
    rcases turn_cases (r.tick (ticks r.steps)) with
      ⟨last, hlast, _⟩ | ⟨f, last, hlast, _⟩ | ⟨next, hnext, _⟩
    · rw [hlast]
      intro h
      cases h
    · rw [hlast]
      intro h
      cases h
    · rw [hnext]
      exact ih next

end Run

end Chip8
