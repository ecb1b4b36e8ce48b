import Chip8.Proofs.Rounds
import Chip8.Proofs.Setting

/-!
# A run is its steps

While the timers do not tick, a run comes to what its steps come to one after the other. It ends at its limit if so many
steps are done, and with the fault of the first step that fails before. Limit and count are those of the run: what the
machine has done before is of no account, and neither is the rate at which it is run.
-/
namespace Chip8

/-- The schedule on which the timers do not tick. -/
def Run.still : Nat → Nat := fun _ => 0

/-- A run that has ended for a reason, after `n` steps and with the session `t`. -/
def Run.Progress.Stops (p : Run.Progress) (why : Run.Stop) (n : Nat) (t : Session) : Prop :=
  ∃ log, p = .stopped why ⟨t, n, log⟩

namespace Session

/-- The session after `k` runs that all end at their limit. -/
def runs? (s : Session) (patience : Nat) : Nat → Option Session
  | 0 => some s
  | k + 1 =>
    match s.run Run.still patience with
    | .stopped .limit q => q.session.runs? patience k
    | _ => none

/-- The session at another rate. -/
def withRate (s : Session) (rate : Nat) : Session :=
  s.under s.machine.timers { s.machine.config with rate := rate }

variable {s t u : Session} {f : Fault} {k n limit patience : Nat} {why : Run.Stop}

theorem play?_rounds_still (s : Session) (first n : Nat) :
    s.play? (Run.rounds Run.still first n) = s.steps? n := by
  induction n generalizing s first with
  | zero => rfl
  | succ n ih =>
    have htick : s.after? (.tick (Run.still first)) = some s := rfl
    rw [Run.rounds, play?_cons, htick, Option.bind_some, play?_cons, steps?, List.replicate_succ,
      play?_cons]
    congr 1
    funext t
    exact ih t (first + 1)

/-- Behind a step that fails there is no other. -/
theorem steps?_eq_none (h : s.steps? k = some t) (hs : t.step = .faulted f t) (hlt : k < n) :
    s.steps? n = none := by
  obtain ⟨m, rfl⟩ := Nat.exists_eq_add_of_lt hlt
  rw [Nat.add_assoc, steps?_add, h, Option.bind_some, steps?_succ_of_faulted hs]

/-- The first step that fails is at one place only. -/
theorem faulted_unique {g : Fault} (ht : s.steps? k = some t) (hf : t.step = .faulted f t)
    (hu : s.steps? n = some u) (hg : u.step = .faulted g u) : k = n ∧ t = u ∧ f = g := by
  have hkn : ¬ k < n := fun hlt => by
    rw [steps?_eq_none ht hf hlt] at hu
    cases hu
  have hnk : ¬ n < k := fun hlt => by
    rw [steps?_eq_none hu hg hlt] at ht
    cases ht
  obtain rfl : k = n := by omega
  rw [ht] at hu
  cases hu
  rw [hf] at hg
  cases hg
  exact ⟨rfl, rfl, rfl⟩

theorem run_ends (s : Session) (patience : Nat) :
    s.start.Ends Run.still patience (s.run Run.still patience) :=
  Run.turns_ends Run.still patience s.start

theorem steps?_of_reaches {q : Run} (h : s.start.Reaches Run.still n q) :
    s.steps? n = some q.session ∧ q.steps = n := by
  have hsession := h.session
  rw [play?_rounds_still] at hsession
  exact ⟨hsession, h.steps.trans (Nat.zero_add n)⟩

/-- A run that stops has gone through as many steps as it counts, and not beyond its limit. -/
theorem stops_reached (h : (s.run Run.still patience).Stops why n t) :
    n < patience ∧ s.steps? n = some t ∧ t.machine.config = s.machine.config ∧
      (∀ limit, s.machine.config.limit = some limit → n ≤ limit) ∧
      ∃ log, Run.StopsAt ⟨t, n, log⟩ why := by
  obtain ⟨log, h⟩ := h
  have hends := s.run_ends patience
  rw [h] at hends
  obtain ⟨m, p, hm, hp, hsteps, hsession, hstops⟩ := hends
  obtain ⟨hp?, hpm⟩ := steps?_of_reaches hp
  have hn : n = m := hsteps.trans hpm
  have ht : t = p.session := hsession
  subst hn ht
  refine ⟨hm, hp?, hp.config, ?_, log, hstops⟩
  intro limit hlimit
  have hle := hp.within limit hlimit (Nat.zero_le limit)
  omega

theorem stops_limit (h : (s.run Run.still patience).Stops .limit n t) :
    s.machine.config.limit = some n ∧ n < patience ∧ s.steps? n = some t := by
  obtain ⟨hn, hsteps, hconfig, hwithin, log, hstops⟩ := stops_reached h
  refine ⟨?_, hn, hsteps⟩
  simp only [Run.StopsAt, Run.limitReached, hconfig] at hstops
  cases hlimit : s.machine.config.limit with
  | none =>
    rw [hlimit] at hstops
    cases hstops
  | some limit =>
    rw [hlimit] at hstops
    have hle := of_decide_eq_true hstops
    have hge := hwithin limit hlimit
    rw [Nat.le_antisymm hle hge]

theorem stops_fault (h : (s.run Run.still patience).Stops (.fault f) n t) :
    (∀ limit, s.machine.config.limit = some limit → n < limit) ∧ n < patience ∧
      s.steps? n = some t ∧ t.step = .faulted f t := by
  obtain ⟨hn, hsteps, hconfig, _, log, hreached, hstep⟩ := stops_reached h
  refine ⟨?_, hn, hsteps, hstep⟩
  intro limit hlimit
  simp only [Run.limitReached, hconfig, hlimit] at hreached
  exact Nat.lt_of_not_le (of_decide_eq_false hreached)

theorem stops_trap {trap : Trap} (h : (s.run Run.still patience).Stops (.trap trap) n t) :
    False := by
  obtain ⟨_, _, _, _, _, hstops⟩ := stops_reached h
  exact hstops

/-- A run ends if it has the patience to come to its limit or to a step that fails. -/
theorem run_stops
    (h : (∃ limit, s.machine.config.limit = some limit ∧ limit < patience) ∨
      ∃ f k t, k < patience ∧ s.steps? k = some t ∧ t.step = .faulted f t) :
    (∃ n t, (s.run Run.still patience).Stops .limit n t) ∨
      ∃ f n t, (s.run Run.still patience).Stops (.fault f) n t := by
  cases hrun : s.run Run.still patience with
  | underway q =>
    -- Then all of its turns were steps that are done, which the limit or the failing step forbids.
    have hends := s.run_ends patience
    rw [hrun] at hends
    obtain ⟨hsteps, hq⟩ := steps?_of_reaches hends
    rcases h with ⟨limit, hlimit, hlt⟩ | ⟨f, k, t, hlt, ht, hf⟩
    · have hle := hends.within limit hlimit (Nat.zero_le limit)
      omega
    · rw [steps?_eq_none ht hf hlt] at hsteps
      cases hsteps
  | stopped why q =>
    cases why with
    | limit => exact Or.inl ⟨q.steps, q.session, q.log, rfl⟩
    | fault f => exact Or.inr ⟨f, q.steps, q.session, q.log, rfl⟩
    | trap trap => exact (stops_trap (n := q.steps) (t := q.session) ⟨q.log, hrun⟩).elim

theorem stops_limit_iff :
    (s.run Run.still patience).Stops .limit n t ↔
      s.machine.config.limit = some n ∧ n < patience ∧ s.steps? n = some t := by
  refine ⟨stops_limit, ?_⟩
  rintro ⟨hlimit, hn, ht⟩
  rcases run_stops (Or.inl ⟨n, hlimit, hn⟩) with ⟨m, u, hstops⟩ | ⟨f, m, u, hstops⟩
  · obtain ⟨hm, _, hu⟩ := stops_limit hstops
    rw [hlimit] at hm
    cases hm
    rw [ht] at hu
    cases hu
    exact hstops
  · obtain ⟨hbelow, _, hu, hf⟩ := stops_fault hstops
    rw [steps?_eq_none hu hf (hbelow n hlimit)] at ht
    cases ht

theorem stops_fault_iff :
    (s.run Run.still patience).Stops (.fault f) n t ↔
      (∀ limit, s.machine.config.limit = some limit → n < limit) ∧ n < patience ∧
        s.steps? n = some t ∧ t.step = .faulted f t := by
  refine ⟨stops_fault, ?_⟩
  rintro ⟨hbelow, hn, ht, hf⟩
  rcases run_stops (Or.inr ⟨f, n, t, hn, ht, hf⟩) with ⟨m, u, hstops⟩ | ⟨g, m, u, hstops⟩
  · obtain ⟨hm, _, hu⟩ := stops_limit hstops
    rw [steps?_eq_none ht hf (hbelow m hm)] at hu
    cases hu
  · obtain ⟨_, _, hu, hg⟩ := stops_fault hstops
    obtain ⟨rfl, rfl, rfl⟩ := faulted_unique ht hf hu hg
    exact hstops

theorem stops_cycles (h : (s.run Run.still patience).Stops why n t) :
    t.machine.cycles = s.machine.cycles + n := by
  obtain ⟨log, h⟩ := h
  have hcontinues := Run.turns_continues Run.still patience s.start
  change s.start.Continues patience (s.run Run.still patience).run at hcontinues
  rw [h] at hcontinues
  exact hcontinues.cycles

theorem steps?_config (h : s.steps? n = some t) : t.machine.config = s.machine.config := by
  induction n generalizing s with
  | zero =>
    cases h
    rfl
  | succ n ih =>
    cases hs : s.step with
    | done u =>
      rw [steps?_succ_of_done hs] at h
      obtain ⟨_, _, _, _, _, hconfig⟩ := step_framed hs
      exact (ih h).trans hconfig
    | faulted f u =>
      rw [steps?_succ_of_faulted hs] at h
      cases h
    | trapped trap u => exact absurd hs step_ne_trapped

/-- Runs with a limit are steps taken in portions. -/
theorem runs?_eq_steps? (hlimit : s.machine.config.limit = some limit) (hp : limit < patience)
    (k : Nat) : s.runs? patience k = s.steps? (k * limit) := by
  induction k generalizing s with
  | zero =>
    rw [Nat.zero_mul]
    rfl
  | succ k ih =>
    rw [Nat.succ_mul, Nat.add_comm (k * limit), steps?_add, runs?]
    rcases run_stops (Or.inl ⟨limit, hlimit, hp⟩) with ⟨n, t, hstops⟩ | ⟨f, n, t, hstops⟩
    · obtain ⟨hn, _, ht⟩ := stops_limit hstops
      obtain ⟨log, hrun⟩ := hstops
      rw [hlimit] at hn
      cases hn
      rw [hrun, ht, Option.bind_some]
      exact ih ((congrArg Config.limit (steps?_config ht)).trans hlimit)
    · obtain ⟨hbelow, _, ht, hf⟩ := stops_fault hstops
      obtain ⟨log, hrun⟩ := hstops
      rw [hrun, steps?_eq_none ht hf (hbelow limit hlimit)]
      rfl

theorem step_withRate (s : Session) (rate : Nat) :
    (s.withRate rate).step = s.step.map fun t => t.withRate rate := by
  rw [withRate, s.step_under _ _ fun _ _ _ => rfl]
  exact s.step_map_congr fun _ => rfl

theorem steps?_withRate (s : Session) (rate n : Nat) :
    (s.withRate rate).steps? n = (s.steps? n).map fun t => t.withRate rate := by
  induction n generalizing s with
  | zero => rfl
  | succ n ih =>
    have hstep := s.step_withRate rate
    cases hs : s.step with
    | done t =>
      rw [hs] at hstep
      rw [steps?_succ_of_done hs, steps?_succ_of_done hstep]
      exact ih t
    | faulted f t =>
      rw [hs] at hstep
      rw [steps?_succ_of_faulted hs, steps?_succ_of_faulted hstep]
      rfl
    | trapped trap t => exact absurd hs step_ne_trapped

/-- At another rate a run ends in the same way. -/
theorem stops_withRate (h : (s.run Run.still patience).Stops why n t) (rate : Nat) :
    ((s.withRate rate).run Run.still patience).Stops why n (t.withRate rate) := by
  have hsteps : ∀ {u}, s.steps? n = some u →
      (s.withRate rate).steps? n = some (u.withRate rate) := by
    intro u hu
    rw [steps?_withRate, hu]
    rfl
  cases why with
  | limit =>
    obtain ⟨hlimit, hn, ht⟩ := stops_limit h
    exact stops_limit_iff.mpr ⟨hlimit, hn, hsteps ht⟩
  | fault f =>
    obtain ⟨hbelow, hn, ht, hf⟩ := stops_fault h
    refine stops_fault_iff.mpr ⟨hbelow, hn, hsteps ht, ?_⟩
    rw [step_withRate, hf]
    rfl
  | trap trap => exact (stops_trap h).elim

/-- A run ends at its limit iff so many steps are done, and with a fault iff it is that of the first step that fails,
before the limit if there is one; with a limit it always ends. It counts the steps that are done, and the machine counts
them as well. Runs one after the other are steps in portions, a limit of zero changes nothing, and another rate changes
neither how a run ends nor what it leaves. -/
theorem run_iterates_step (s : Session) (patience : Nat) :
    (∀ n t, (s.run Run.still patience).Stops .limit n t ↔
      s.machine.config.limit = some n ∧ n < patience ∧ s.steps? n = some t) ∧
    (∀ f n t, (s.run Run.still patience).Stops (.fault f) n t ↔
      (∀ limit, s.machine.config.limit = some limit → n < limit) ∧ n < patience ∧
        s.steps? n = some t ∧ t.step = .faulted f t) ∧
    (∀ why n t, (s.run Run.still patience).Stops why n t →
      t.machine.cycles = s.machine.cycles + n ∧
        ∀ rate, ((s.withRate rate).run Run.still patience).Stops why n (t.withRate rate)) ∧
    ∀ limit, s.machine.config.limit = some limit → limit < patience →
      ((∃ n t, (s.run Run.still patience).Stops .limit n t) ∨
        ∃ f n t, (s.run Run.still patience).Stops (.fault f) n t) ∧
      (∀ k, s.runs? patience k = s.steps? (k * limit)) ∧
      (limit = 0 → (s.run Run.still patience).Stops .limit 0 s) := by
  refine ⟨fun n t => stops_limit_iff, fun f n t => stops_fault_iff, ?_, ?_⟩
  · intro why n t h
    exact ⟨stops_cycles h, stops_withRate h⟩
  · intro limit hlimit hp
    refine ⟨run_stops (Or.inl ⟨limit, hlimit, hp⟩), runs?_eq_steps? hlimit hp, ?_⟩
    rintro rfl
    exact stops_limit_iff.mpr ⟨hlimit, hp, rfl⟩

/-- A session that waits for a key that nobody presses, for three steps at most. -/
def waiting : Session where
  machine := { Machine.ofConfig ⟨700, some 3, none⟩ (Random.keyOf 7) with
    memory := Memory.fresh.putAll 0x200 [0xF0, 0x0A]
    cycles := 5 }
  keypad := Keypad.untouched

/-- The wait counts as a step each time, at any rate. -/
theorem run_iterates_step_waiting :
    ∃ t, (waiting.run Run.still 4).Stops .limit 3 t ∧ t.machine.cycles = 8 ∧
      ((waiting.withRate 0).run Run.still 4).Stops .limit 3 (t.withRate 0) := by
  obtain ⟨hlimit, _, hend, _⟩ := run_iterates_step waiting 4
  have hsteps : (waiting.steps? 3).isSome = true := by decide +kernel
  obtain ⟨t, ht⟩ := Option.isSome_iff_exists.mp hsteps
  have hstops := (hlimit 3 t).mpr ⟨rfl, by decide, ht⟩
  obtain ⟨hcycles, hrate⟩ := hend _ _ _ hstops
  exact ⟨t, hstops, hcycles, hrate 0⟩

end Session

end Chip8
