import Chip8.Proofs.Running
import Chip8.Proofs.Trace

/-!
# Runs as rounds

A round is a number of ticks and a step after them. A run goes through rounds, all of whose steps are done, and then it
either is out of patience, or lets the timers tick once more and stops: at the limit, or with the fault of a step that
cannot be done.
-/
namespace Chip8

namespace Run

/-- `n` rounds, the first of which has `first` steps of the run before it. -/
def rounds (ticks : Nat → Nat) (first : Nat) : Nat → List Event
  | 0 => []
  | n + 1 => .tick (ticks first) :: .step :: rounds ticks (first + 1) n

theorem rounds_add (ticks : Nat → Nat) (first m n : Nat) :
    rounds ticks first (m + n) = rounds ticks first m ++ rounds ticks (first + m) n := by
  induction m generalizing first with
  | zero => rw [Nat.zero_add, Nat.add_zero, rounds, List.nil_append]
  | succ m ih =>
    rw [Nat.succ_add, rounds, rounds, ih (first + 1), Nat.add_right_comm first 1 m]
    rfl

variable {ticks : Nat → Nat} {r p q : Run} {m n patience : Nat}

/-- From `r` to `q` in `n` rounds. A limit that `r` has not gone beyond is not gone beyond on the way. -/
structure Reaches (ticks : Nat → Nat) (r : Run) (n : Nat) (q : Run) : Prop where
  steps : q.steps = r.steps + n
  session : r.session.play? (rounds ticks r.steps n) = some q.session
  config : q.session.machine.config = r.session.machine.config
  within : ∀ limit, r.session.machine.config.limit = some limit → r.steps ≤ limit →
    q.steps ≤ limit

theorem Reaches.refl (ticks : Nat → Nat) (r : Run) : r.Reaches ticks 0 r :=
  ⟨rfl, rfl, rfl, fun _ _ h => h⟩

theorem Reaches.trans (hp : Reaches ticks r m p) (hq : Reaches ticks p n q) :
    Reaches ticks r (m + n) q := by
  refine ⟨?_, ?_, hq.config.trans hp.config, ?_⟩
  · rw [hq.steps, hp.steps, Nat.add_assoc]
  · rw [rounds_add, Session.play?_append, hp.session, Option.bind_some, ← hp.steps]
    exact hq.session
  · intro limit hlimit hle
    exact hq.within limit (by rw [hp.config]; exact hlimit) (hp.within limit hlimit hle)

/-- What holds of a run that stops where it stands. -/
def StopsAt (q : Run) : Stop → Prop
  | .limit => q.limitReached = true
  | .fault f => q.limitReached = false ∧ q.session.step = .faulted f q.session
  | .trap _ => False

/-- What a run that begins as `r` has come to when its patience is over, or when it has stopped before. -/
def Ends (ticks : Nat → Nat) (patience : Nat) (r : Run) : Progress → Prop
  | .underway q => r.Reaches ticks patience q
  | .stopped why q => ∃ n p, n < patience ∧ r.Reaches ticks n p ∧ q.steps = p.steps ∧
      q.session = p.session.after (.tick (ticks p.steps)) ∧ q.StopsAt why

theorem limitReached_congr (hsteps : q.steps = p.steps)
    (hconfig : q.session.machine.config = p.session.machine.config) :
    q.limitReached = p.limitReached := by
  rw [limitReached, limitReached, hsteps, hconfig]

/-- While the limit is not reached, a step that is done leads to the next round. -/
theorem reaches_of_done {s : Session} (hl : r.limitReached = false)
    (hs : (r.tick (ticks r.steps)).session.step = .done s) (hsteps : q.steps = r.steps + 1)
    (hsession : q.session = s) : r.Reaches ticks 1 q := by
  obtain ⟨_, _, _, _, _, hconfig⟩ := Session.step_framed hs
  subst hsession
  refine ⟨hsteps, ?_, hconfig, ?_⟩
  · rw [rounds, Session.play?_cons]
    change (r.tick (ticks r.steps)).session.play? [.step] = _
    rw [Session.play?_cons, Session.after?_step_of_done hs]
    rfl
  · intro limit hlimit _
    rw [limitReached, hlimit] at hl
    have hlt : ¬ limit ≤ r.steps := of_decide_eq_false hl
    omega

theorem Reaches.ends {progress : Progress} (hp : Reaches ticks r m p)
    (h : p.Ends ticks n progress) : r.Ends ticks (m + n) progress := by
  cases progress with
  | underway q => exact hp.trans h
  | stopped why q =>
    obtain ⟨k, u, hk, hu, hsteps, hsession, hstops⟩ := h
    exact ⟨m + k, u, Nat.add_lt_add_left hk m, hp.trans hu, hsteps, hsession, hstops⟩

theorem turns_ends (ticks : Nat → Nat) (patience : Nat) (r : Run) :
    r.Ends ticks patience (turns ticks patience r) := by
  induction patience generalizing r with
  | zero => exact Reaches.refl ticks r
  | succ patience ih =>
    rw [turns]
    have hlimit : (r.tick (ticks r.steps)).limitReached = r.limitReached :=
      limitReached_congr rfl rfl
    cases hl : r.limitReached with
    | true =>
      rw [turn_of_limit (hlimit.trans hl)]
      exact ⟨0, r, Nat.succ_pos patience, Reaches.refl ticks r, rfl, rfl, hlimit.trans hl⟩
    | false =>
      cases hs : (r.tick (ticks r.steps)).session.step with
      | done s =>
        rw [turn_of_done (hlimit.trans hl) hs, Nat.add_comm]
        exact (reaches_of_done hl hs rfl rfl).ends (ih _)
      | faulted f s =>
        obtain ⟨_, rfl⟩ := Session.step_faulted_iff.mp hs
        have hsteps := (r.tick (ticks r.steps)).traceFetch_steps
        rw [turn_of_faulted (hlimit.trans hl) hs]
        refine ⟨0, r, Nat.succ_pos patience, Reaches.refl ticks r, hsteps, rfl, ?_, hs⟩
        refine Eq.trans ?_ (hlimit.trans hl)
        exact limitReached_congr hsteps rfl
      | trapped trap s => exact absurd hs Session.step_ne_trapped

/-- The ticks and the steps of a run. -/
def Progress.events (ticks : Nat → Nat) : Progress → List Event
  | underway q => rounds ticks 0 q.steps
  | stopped .limit q => rounds ticks 0 q.steps ++ [.tick (ticks q.steps)]
  | stopped _ q => rounds ticks 0 q.steps ++ [.tick (ticks q.steps), .step]

/-- A session after a run is the session after its ticks and steps. -/
theorem run_session (s : Session) (ticks : Nat → Nat) (patience : Nat) :
    (s.run ticks patience).run.session = s.play ((s.run ticks patience).events ticks) := by
  have hends := turns_ends ticks patience s.start
  change s.start.Ends ticks patience (s.run ticks patience) at hends
  cases hrun : s.run ticks patience with
  | underway q =>
    rw [hrun] at hends
    have hsteps : q.steps = patience := hends.steps.trans (Nat.zero_add patience)
    rw [Progress.events, hsteps]
    exact (Session.play_of_play? hends.session).symm
  | stopped why q =>
    rw [hrun] at hends
    obtain ⟨n, p, _, hp, hsteps, hsession, hstops⟩ := hends
    have hn : p.steps = n := hp.steps.trans (Nat.zero_add n)
    have hplay : s.play (rounds ticks 0 n) = p.session := Session.play_of_play? hp.session
    have htick : s.play (rounds ticks 0 n ++ [.tick (ticks n)]) = q.session := by
      rw [Session.play_concat, hplay, hsession, hn]
    cases why with
    | limit =>
      rw [Progress.events, hsteps, hn]
      exact htick.symm
    | fault f =>
      change q.session = s.play (rounds ticks 0 q.steps ++ [.tick (ticks q.steps), .step])
      rw [hsteps, hn, List.append_cons, Session.play_concat, htick,
        Session.after_step_of_faulted hstops.2]
    | trap trap => exact hstops.elim

end Run

end Chip8
