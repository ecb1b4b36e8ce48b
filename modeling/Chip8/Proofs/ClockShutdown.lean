import Chip8.Proofs.Interleaving

/-!
# Shutting a clock down

The owner of a clock clears its flag and waits for the thread, which looks at the flag before each tick. So at most the
tick that the thread has begun is still made, the thread is gone once the owner has waited for it, and the log tells
of start, exit and stop in this order, whatever the program does to the timers meanwhile.
-/
namespace Chip8.Clock

/-- Whether the owner has not shut the clock down. -/
def Owner.holds : Owner → Bool
  | starting | holding => true
  | _ => false

/-- What the log says by the time that owner and thread are where they are, the first record first. -/
def recorded (owner : Owner) (thread : Thread) : List Log.Record :=
  (if owner = .starting then [] else [.clockStarted frequency]) ++
    (if thread = .finished then [.clockExiting] else []) ++
    if owner = .released then [.clockStopped] else []

/-- What flag, thread, owner and log have to do with one another in every clock that was started. -/
structure Orderly (c : Clock) : Prop where
  flag : c.flag = c.owner.holds
  leaving : c.thread = .leaving ∨ c.thread = .finished → c.flag = false
  joined : c.owner = .joined ∨ c.owner = .released → c.thread = .finished
  log : c.log.reverse = recorded c.owner c.thread

variable {c d : Clock} {a : Action} {actions : List Action}

theorem orderly_start (timers : Timers) : Orderly (start timers) where
  flag := rfl
  leaving h := by rcases h with h | h <;> cases h
  joined h := by rcases h with h | h <;> cases h
  log := rfl

/-- The thread stays while the flag is set. -/
theorem Orderly.thread_ne_finished (hc : Orderly c) (h : c.owner.holds = true) :
    c.thread ≠ .finished := by
  intro hthread
  have hflag := hc.leaving (Or.inr hthread)
  rw [hc.flag, h] at hflag
  cases hflag

/-- The owner has not waited for a thread that is still there. -/
theorem Orderly.not_joined (hc : Orderly c) (h : c.thread ≠ .finished) :
    c.owner ≠ .joined ∧ c.owner ≠ .released :=
  ⟨fun howner => h (hc.joined (Or.inl howner)), fun howner => h (hc.joined (Or.inr howner))⟩

theorem recorded_of_ne_finished {owner : Owner} {thread thread' : Thread} (h : thread ≠ .finished)
    (h' : thread' ≠ .finished) : recorded owner thread = recorded owner thread' := by
  rw [recorded, recorded, if_neg h, if_neg h']

/-- The thread goes from one place to another, but does not finish. -/
theorem Orderly.move (hc : Orderly c) {thread : Thread} (hfrom : c.thread ≠ .finished)
    (hto : thread ≠ .finished) (hleaving : thread = .leaving → c.flag = false)
    (hsame : d.flag = c.flag ∧ d.owner = c.owner ∧ d.log = c.log ∧ d.thread = thread) :
    Orderly d := by
  obtain ⟨hflag, howner, hlog, rfl⟩ := hsame
  obtain ⟨hjoined, hreleased⟩ := hc.not_joined hfrom
  constructor
  · rw [hflag, howner, hc.flag]
  · intro h
    rw [hflag]
    exact hleaving (h.resolve_right hto)
  · intro h
    rw [howner] at h
    exact (h.elim hjoined hreleased).elim
  · rw [hlog, howner, hc.log]
    exact recorded_of_ne_finished hfrom hto

theorem Orderly.act (hc : Orderly c) (h : c.act? a = some d) : Orderly d := by
  cases a with
  | setDelay | setSound | getDelay | getSound =>
    cases h
    exact ⟨hc.flag, hc.leaving, hc.joined, hc.log⟩
  | check =>
    obtain ⟨hthread, h⟩ := Option.ite_none_right_eq_some.mp h
    cases h
    refine hc.move (by simp [hthread]) ?_ ?_ ⟨rfl, rfl, rfl, rfl⟩
    · split <;> simp
    · cases c.flag <;> simp
  | tickDelay | tickSound =>
    obtain ⟨hthread, h⟩ := Option.ite_none_right_eq_some.mp h
    cases h
    exact hc.move (by simp [hthread]) (by simp) (by simp) ⟨rfl, rfl, rfl, rfl⟩
  | leave =>
    obtain ⟨hthread, h⟩ := Option.ite_none_right_eq_some.mp h
    cases h
    have hstay : c.thread ≠ .finished := by simp [hthread]
    have hflag : c.flag = false := hc.leaving (Or.inl hthread)
    obtain ⟨hjoined, hreleased⟩ := hc.not_joined hstay
    -- The flag was cleared, and before that the owner told of the start.
    have hstarted : c.owner ≠ .starting := by
      intro howner
      rw [hc.flag, howner] at hflag
      cases hflag
    refine ⟨hc.flag, fun _ => hflag, fun _ => rfl, ?_⟩
    simp [recorded, hc.log, hthread, hreleased, hstarted]
  | reportStart =>
    obtain ⟨howner, h⟩ := Option.ite_none_right_eq_some.mp h
    cases h
    have hstay := hc.thread_ne_finished (by rw [howner]; rfl)
    refine ⟨by rw [hc.flag, howner]; rfl, hc.leaving, by simp, ?_⟩
    simp [recorded, hc.log, howner, hstay]
  | clearFlag =>
    obtain ⟨howner, h⟩ := Option.ite_none_right_eq_some.mp h
    cases h
    refine ⟨rfl, fun _ => rfl, by simp, ?_⟩
    simp [recorded, hc.log, howner]
  | join =>
    obtain ⟨⟨howner, hthread⟩, h⟩ := Option.ite_none_right_eq_some.mp h
    cases h
    refine ⟨by rw [hc.flag, howner]; rfl, hc.leaving, fun _ => hthread, ?_⟩
    simp [recorded, hc.log, howner]
  | reportStop =>
    obtain ⟨howner, h⟩ := Option.ite_none_right_eq_some.mp h
    cases h
    have hthread := hc.joined (Or.inl howner)
    refine ⟨by rw [hc.flag, howner]; rfl, hc.leaving, fun _ => hthread, ?_⟩
    simp [recorded, hc.log, howner, hthread]
  | shutdownAgain =>
    obtain ⟨howner, h⟩ := Option.ite_none_right_eq_some.mp h
    cases h
    exact ⟨by rw [howner]; rfl, fun _ => rfl, hc.joined, hc.log⟩

/-- The log grows from nothing to start, exit and stop. -/
theorem Orderly.log_prefix (hc : Orderly c) :
    c.log.reverse <+: [.clockStarted frequency, .clockExiting, .clockStopped] := by
  have hstarting := hc.thread_ne_finished
  have hreleased := hc.joined
  rw [hc.log]
  cases howner : c.owner <;> cases hthread : c.thread <;> simp_all [recorded, Owner.holds]

theorem Orderly.play (hc : Orderly c) (h : c.play? actions = some d) : Orderly d := by
  induction actions generalizing c with
  | nil =>
    cases h
    exact hc
  | cons a rest ih =>
    obtain ⟨next, hnext, hrest⟩ := play?_cons_eq_some.mp h
    exact ih (hc.act hnext) hrest

/-! ## The last tick -/

/-- The ticks that the thread will make without looking at the flag again. -/
def ticksBegun (c : Clock) : Nat := if c.thread = .due ∨ c.thread = .halfway then 1 else 0

theorem ticksBegun_le (c : Clock) : c.ticksBegun ≤ 1 := by
  unfold ticksBegun
  split <;> decide

theorem ticks_of_act? (hflag : c.flag = false) (h : c.act? a = some d) :
    d.flag = false ∧ [a].count .tickSound + d.ticksBegun ≤ c.ticksBegun := by
  cases a with
  | setDelay | setSound | getDelay | getSound =>
    cases h
    exact ⟨hflag, Nat.le_of_eq (Nat.zero_add _)⟩
  | check | tickDelay | tickSound | leave =>
    obtain ⟨hthread, h⟩ := Option.ite_none_right_eq_some.mp h
    cases h
    simp [ticksBegun, hthread, hflag]
  | _ =>
    obtain ⟨_, h⟩ := Option.ite_none_right_eq_some.mp h
    cases h
    simp [ticksBegun, hflag]

/-- Once the flag is clear, no more ticks are made than the thread has begun. -/
theorem ticks_of_play? (hflag : c.flag = false) (h : c.play? actions = some d) :
    actions.count .tickSound + d.ticksBegun ≤ c.ticksBegun := by
  induction actions generalizing c with
  | nil =>
    cases h
    exact Nat.le_of_eq (Nat.zero_add _)
  | cons a rest ih =>
    obtain ⟨next, hnext, hrest⟩ := play?_cons_eq_some.mp h
    obtain ⟨hclear, hhere⟩ := ticks_of_act? hflag hnext
    have hlater := ih hclear hrest
    rw [← List.singleton_append, List.count_append]
    omega

/-! ## After the thread -/

theorem finished_act? (hc : c.thread = .finished) (h : c.act? a = some d) :
    d.thread = .finished ∧ a ≠ .tickDelay ∧ a ≠ .tickSound := by
  cases a with
  | setDelay | setSound | getDelay | getSound =>
    cases h
    simp [hc]
  | _ =>
    obtain ⟨hguard, h⟩ := Option.ite_none_right_eq_some.mp h
    cases h
    simp_all

/-- A thread that has finished ticks no more. -/
theorem finished_play? (hc : c.thread = .finished) (h : c.play? actions = some d) :
    .tickDelay ∉ actions ∧ .tickSound ∉ actions := by
  induction actions generalizing c with
  | nil => exact ⟨List.not_mem_nil, List.not_mem_nil⟩
  | cons a rest ih =>
    obtain ⟨next, hnext, hrest⟩ := play?_cons_eq_some.mp h
    obtain ⟨hfinished, hdelay, hsound⟩ := finished_act? hc hnext
    obtain ⟨hnodelay, hnosound⟩ := ih hfinished hrest
    simp [hdelay.symm, hsound.symm, hnodelay, hnosound]

/-- What is set once the thread has finished stays, and is what every get reads, until it is set again. -/
theorem value_stays {x : Timers.Name} {value : UInt8} (hc : c.thread = .finished)
    (ha : a.access? = some ⟨x, .set value⟩) (h : c.play? (a :: actions) = some d)
    (hset : ∀ b ∈ actions, ∀ w, b.access? ≠ some ⟨x, .set w⟩) :
    d.timers.value x = value ∧ ∀ r ∈ c.readings x (a :: actions), r = value := by
  obtain ⟨hdelay, hsound⟩ := finished_play? hc h
  -- No tick is possible and no other set is there, so gets are all that is left.
  have hgets : ∀ op ∈ opsOn x actions, op = .get := by
    intro op hop
    obtain ⟨b, hb, hop⟩ := mem_opsOn hop
    cases op with
    | get => rfl
    | set w => exact absurd hop (hset b hb w)
    | tick =>
      have hmem := List.mem_cons_of_mem a hb
      cases b with
      | tickDelay => exact absurd hmem hdelay
      | tickSound => exact absurd hmem hsound
      | _ => cases hop
  have hstays := Timer.afterAll_gets value hgets
  rw [value_of_play? h, readings_of_play? h, opsOn_cons ha]
  exact hstays

/-! ## The way to the end -/

/-- What a thread still does once the flag is clear. -/
def Thread.wayOut : Thread → List Action
  | checking => [.check, .leave]
  | due => [.tickDelay, .tickSound, .check, .leave]
  | halfway => [.tickSound, .check, .leave]
  | leaving => [.leave]
  | finished => []

/-- What the owner of a clock does to shut it down, from where it stands, and what the thread does in between. -/
def ending (c : Clock) : List Action :=
  match c.owner with
  | .starting => [.reportStart, .clearFlag] ++ c.thread.wayOut ++ [.join, .reportStop]
  | .holding => [.clearFlag] ++ c.thread.wayOut ++ [.join, .reportStop]
  | .waiting => c.thread.wayOut ++ [.join, .reportStop]
  | .joined => [.reportStop]
  | .released => []

/-- The owner never waits in vain. -/
theorem Orderly.play?_ending (hc : Orderly c) :
    ∃ d, c.play? c.ending = some d ∧ d.owner = .released := by
  obtain ⟨timers, tones, flag, thread, owner, log⟩ := c
  cases owner with
  | starting | holding => cases thread <;> exact ⟨_, rfl, rfl⟩
  | waiting =>
    have hflag : flag = false := hc.flag
    subst hflag
    cases thread <;> exact ⟨_, rfl, rfl⟩
  | joined | released => exact ⟨_, rfl, rfl⟩

/-- However thread, owner and program take turns: once the flag is clear, at most one more tick is made. Once the owner has
shut the clock down, it ticks no more, and what is set then stays until it is set again; a second shutdown changes
nothing; and the log has the start, the exit of the thread and the stop, once each. Until then the log has the first of
these, and the shutdown can always be brought to its end. -/
theorem shutdown_is_final {timers : Timers} (h : (start timers).play? actions = some c) :
    (c.flag = false → ∀ rest d, c.play? rest = some d → rest.count .tickSound ≤ 1) ∧
    (c.owner = .released →
      (∀ rest d, c.play? rest = some d → .tickDelay ∉ rest ∧ .tickSound ∉ rest) ∧
      (∀ x value set rest d, set.access? = some ⟨x, .set value⟩ →
        c.play? (set :: rest) = some d → (∀ a ∈ rest, ∀ w, a.access? ≠ some ⟨x, .set w⟩) →
        d.timers.value x = value ∧ ∀ r ∈ c.readings x (set :: rest), r = value) ∧
      c.act? .shutdownAgain = some c ∧
      c.log.reverse = [.clockStarted frequency, .clockExiting, .clockStopped]) ∧
    c.log.reverse <+: [.clockStarted frequency, .clockExiting, .clockStopped] ∧
    ∃ rest d, c.play? rest = some d ∧ d.owner = .released := by
  have hc := (orderly_start timers).play h
  refine ⟨fun hflag rest d hrest => ?_, fun hreleased => ?_, ?_, _, hc.play?_ending⟩
  · have hticks := ticks_of_play? hflag hrest
    have hbegun := c.ticksBegun_le
    omega
  · have hfinished := hc.joined (Or.inr hreleased)
    have hflag : c.flag = false := hc.leaving (Or.inr hfinished)
    refine ⟨fun rest d => finished_play? hfinished,
      fun x value set rest d hset hrest => value_stays hfinished hset hrest, ?_, ?_⟩
    · rw [act?, if_pos hreleased, ← hflag]
    · rw [hc.log, hreleased, hfinished]
      rfl
  · exact hc.log_prefix

/-- The flag is cleared while the thread is about to tick. -/
def clearedBeforeTick : List Action :=
  [.setSound 2, .check, .reportStart, .clearFlag]

/-- The last tick is made, and the owner shuts the clock down twice. -/
def lastTick : List Action :=
  [.tickDelay, .setDelay 9, .tickSound, .check, .leave, .join, .reportStop, .shutdownAgain]

/-- One tick is made after the flag was cleared, and a delay of 10 that is set at the end is there when it is read. -/
theorem shutdown_is_final_last_tick : ∃ c d e,
    (start Timers.stopped).play? clearedBeforeTick = some c ∧ c.flag = false ∧
      c.play? lastTick = some d ∧ lastTick.count .tickSound ≤ 1 ∧ d.tones = 1 ∧
      (start Timers.stopped).play? (clearedBeforeTick ++ lastTick) = some d ∧
      d.owner = .released ∧ d.act? .shutdownAgain = some d ∧
      d.log.reverse = [.clockStarted 60, .clockExiting, .clockStopped] ∧
      d.play? [.setDelay 10, .getDelay, .setSound 1] = some e ∧ e.timers.value .delay = 10 ∧
      ∀ r ∈ d.readings .delay [.setDelay 10, .getDelay, .setSound 1], r = 10 := by
  have hc : (start Timers.stopped).play? clearedBeforeTick =
      some ⟨⟨0, 2⟩, 0, false, .due, .waiting, [.clockStarted 60]⟩ := by decide
  have hd : (start Timers.stopped).play? (clearedBeforeTick ++ lastTick) =
      some ⟨⟨9, 1⟩, 1, false, .finished, .released, [.clockStopped, .clockExiting, .clockStarted 60]⟩ :=
    by decide
  obtain ⟨c', hc', hrest⟩ := play?_append_eq_some.mp hd
  obtain rfl := Option.some.inj (hc.symm.trans hc')
  obtain ⟨_, hfinal, _⟩ := shutdown_is_final hd
  obtain ⟨_, hstays, hagain, hlog⟩ := hfinal rfl
  have hnoset : ∀ a ∈ [Action.getDelay, .setSound 1], ∀ w, a.access? ≠ some ⟨.delay, .set w⟩ := by
    intro a ha w h
    simp only [List.mem_cons, List.not_mem_nil, or_false] at ha
    obtain rfl | rfl := ha <;> cases h
  have hplay := hstays .delay 10 (.setDelay 10) [.getDelay, .setSound 1] _ rfl rfl hnoset
  exact ⟨_, _, _, hc, rfl, hrest, (shutdown_is_final hc).1 rfl _ _ hrest, rfl, hd, rfl, hagain, hlog,
    rfl, hplay⟩

end Chip8.Clock
