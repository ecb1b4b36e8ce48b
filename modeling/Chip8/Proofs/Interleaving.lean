import Chip8.Proofs.TimerAccess
import Chip8.Timers.Clock

/-!
# A clock beside a program

The thread of a clock ticks the delay timer and later the sound timer, while a program sets and reads both at any time.
What an interleaving of the two comes to depends on the order of the accesses to each timer alone: a set that falls
between the halves of a tick is neither lost nor undone, and no timer is taken below zero.
-/
namespace Chip8.Clock

/-- The access to a timer that an action makes, if it makes one. -/
def Action.access? : Action → Option Timers.Access
  | tickDelay => some ⟨.delay, .tick⟩
  | tickSound => some ⟨.sound, .tick⟩
  | setDelay value => some ⟨.delay, .set value⟩
  | setSound value => some ⟨.sound, .set value⟩
  | getDelay => some ⟨.delay, .get⟩
  | getSound => some ⟨.sound, .get⟩
  | _ => none

def accesses (actions : List Action) : List Timers.Access := actions.filterMap Action.access?

/-- What is done to one timer, in order. -/
def opsOn (x : Timers.Name) (actions : List Action) : List Timer.Op :=
  Timers.Access.on x (accesses actions)

/-- What the gets of a timer among the actions read, the first one first. -/
def readings (c : Clock) (x : Timers.Name) : List Action → List UInt8
  | [] => []
  | a :: rest =>
    (a.access?.bind fun access => c.timers.reading? x access).toList ++
      (c.act? a).elim [] fun next => next.readings x rest

variable {c d : Clock} {a : Action} {x : Timers.Name} {actions : List Action}

theorem play?_cons_eq_some {rest : List Action} :
    c.play? (a :: rest) = some d ↔ ∃ next, c.act? a = some next ∧ next.play? rest = some d :=
  Option.bind_eq_some_iff

theorem accesses_cons (a : Action) (rest : List Action) :
    accesses (a :: rest) = a.access?.toList ++ accesses rest := by
  rw [accesses, List.filterMap_cons]
  cases a.access? <;> rfl

theorem play?_append_eq_some {first second : List Action} :
    c.play? (first ++ second) = some d ↔
      ∃ mid, c.play? first = some mid ∧ mid.play? second = some d := by
  rw [play?_append, Option.bind_eq_some_iff]

theorem opsOn_append (x : Timers.Name) (first second : List Action) :
    opsOn x (first ++ second) = opsOn x first ++ opsOn x second := by
  rw [opsOn, accesses, List.filterMap_append, Timers.on_append]
  rfl

theorem opsOn_cons {op : Timer.Op} (h : a.access? = some ⟨x, op⟩) (rest : List Action) :
    opsOn x (a :: rest) = op :: opsOn x rest := by
  rw [opsOn, accesses_cons, h, Timers.on_append]
  cases x <;> rfl

theorem mem_opsOn {op : Timer.Op} (h : op ∈ opsOn x actions) :
    ∃ a ∈ actions, a.access? = some ⟨x, op⟩ := by
  obtain ⟨access, hmem, hop⟩ := List.mem_map.mp h
  obtain ⟨hmem, htimer⟩ := List.mem_filter.mp hmem
  obtain ⟨a, ha, haccess⟩ := List.mem_filterMap.mp hmem
  have hx : access.timer = x := of_decide_eq_true htimer
  subst hx hop
  exact ⟨a, ha, haccess⟩

/-- An action does to the timers what its access does. -/
theorem timers_of_act? (h : c.act? a = some d) :
    d.timers = (c.timers.accessAll a.access?.toList).1 ∧
      d.tones = c.tones + (c.timers.accessAll a.access?.toList).2 := by
  cases a with
  | setDelay | setSound | getDelay | getSound =>
    cases h
    exact ⟨rfl, rfl⟩
  | _ =>
    obtain ⟨_, h⟩ := Option.ite_none_right_eq_some.mp h
    cases h
    exact ⟨rfl, rfl⟩

/-- What a clock and a program come to is what their accesses come to. -/
theorem timers_of_play? (h : c.play? actions = some d) :
    d.timers = (c.timers.accessAll (accesses actions)).1 ∧
      d.tones = c.tones + (c.timers.accessAll (accesses actions)).2 := by
  induction actions generalizing c with
  | nil =>
    cases h
    exact ⟨rfl, rfl⟩
  | cons a rest ih =>
    obtain ⟨next, hnext, hrest⟩ := play?_cons_eq_some.mp h
    obtain ⟨htimers, htones⟩ := timers_of_act? hnext
    obtain ⟨hlast, hheard⟩ := ih hrest
    rw [accesses_cons, Timers.accessAll_append, ← htimers]
    exact ⟨hlast, by rw [hheard, htones, Nat.add_assoc]⟩

theorem readings_of_play? (h : c.play? actions = some d) :
    c.readings x actions = Timer.readings (c.timers.value x) (opsOn x actions) := by
  induction actions generalizing c with
  | nil => rfl
  | cons a rest ih =>
    obtain ⟨next, hnext, hrest⟩ := play?_cons_eq_some.mp h
    have hvalue : next.timers.value x =
        Timer.afterAll (c.timers.value x) (Timers.Access.on x a.access?.toList) := by
      rw [(timers_of_act? hnext).1, Timers.value_accessAll]
    have hhere : (a.access?.bind fun access => c.timers.reading? x access).toList =
        Timer.readings (c.timers.value x) (Timers.Access.on x a.access?.toList) := by
      cases a.access? with
      | none => rfl
      | some access => exact c.timers.reading?_toList x access
    rw [readings, hnext, opsOn, accesses_cons, Timers.on_append, Timer.readings_append, ← hvalue,
      ← hhere]
    exact congrArg _ (ih hrest)

theorem value_of_play? (h : c.play? actions = some d) (x : Timers.Name) :
    d.timers.value x = Timer.afterAll (c.timers.value x) (opsOn x actions) := by
  rw [(timers_of_play? h).1, Timers.value_accessAll]
  rfl

/-- Two interleavings whose accesses to each timer come in the same order come to the same, however the accesses to the one
timer lie between those to the other: all gets read the same, and timers and tones are the same at the end. In every
interleaving that begins with both timers at zero a timer stands at the value set last, zero if none was, less the ticks
since then, and a get reads just that. A program gets the delay by Fx07 and sets the timers by Fx15 and Fx18; what it
executes besides leaves them alone. -/
theorem interleavings_agree :
    (∀ timers first second c d, (start timers).play? first = some c →
      (start timers).play? second = some d → (∀ x, opsOn x first = opsOn x second) →
      (∀ x, (start timers).readings x first = (start timers).readings x second) ∧
        c.timers = d.timers ∧ c.tones = d.tones) ∧
    (∀ actions c, (start Timers.stopped).play? actions = some c → ∀ x,
      (c.timers.value x).toNat =
        (Timer.lastSet (opsOn x actions)).toNat - Timer.ticksSinceSet (opsOn x actions)) ∧
    (∀ before get rest c x, (start Timers.stopped).play? (before ++ get :: rest) = some c →
      get.access? = some ⟨x, .get⟩ → ∃ value later,
        (start Timers.stopped).readings x (before ++ get :: rest) =
          (start Timers.stopped).readings x before ++ value :: later ∧
        value.toNat =
          (Timer.lastSet (opsOn x before)).toNat - Timer.ticksSinceSet (opsOn x before)) ∧
    ∀ e : Execution, e.before.machine.timers.accessAll e.accesses = (e.after.machine.timers, 0) ∧
      ∀ x, e.instruction = .readDelay x → e.before.machine.registers.Takes x
        (e.before.machine.timers.value .delay) e.after.machine.registers := by
  have hzero : ∀ x, (start Timers.stopped).timers.value x = 0 := by
    intro x
    cases x <;> rfl
  refine ⟨?_, ?_, ?_, fun e => ⟨e.accessAll_accesses, fun x => e.takes_of_readDelay⟩⟩
  · intro timers first second c d hc hd horder
    obtain ⟨htimers, htones⟩ := timers_of_play? hc
    obtain ⟨htimers', htones'⟩ := timers_of_play? hd
    have hsame := Timers.accessAll_congr (start timers).timers horder
    refine ⟨fun x => ?_, ?_, ?_⟩
    · rw [readings_of_play? hc, readings_of_play? hd, horder]
    · rw [htimers, htimers', hsame]
    · rw [htones, htones', hsame]
  · intro actions c hc x
    rw [value_of_play? hc, hzero, Timer.toNat_afterAll]
  · intro before get rest c x hc hget
    obtain ⟨mid, hbefore, _⟩ := play?_append_eq_some.mp hc
    have hreadings : (start Timers.stopped).readings x (before ++ get :: rest) =
        (start Timers.stopped).readings x before ++ Timer.afterAll 0 (opsOn x before) ::
          Timer.readings (Timer.afterAll 0 (opsOn x before)) (opsOn x rest) := by
      rw [readings_of_play? hc, readings_of_play? hbefore, hzero, opsOn_append,
        opsOn_cons hget, Timer.readings_append]
      rfl
    exact ⟨_, _, hreadings, Timer.toNat_afterAll (opsOn x before)⟩

/-- Sets both timers to 2 and reads the delay while a clock ticks once. The sound timer is set between the halves of the
tick. -/
def betweenHalves : List Action :=
  [.setDelay 2, .check, .tickDelay, .setSound 2, .tickSound, .getDelay]

/-- The same, but the sound timer is set before the tick and the delay is read between its halves. -/
def aroundTick : List Action :=
  [.setDelay 2, .setSound 2, .check, .tickDelay, .getDelay, .tickSound]

/-- Both timers have come down to 1, one tone was heard, and the delay was read as 1. -/
theorem interleavings_agree_between_halves : ∃ c d,
    (start Timers.stopped).play? betweenHalves = some c ∧
      (start Timers.stopped).play? aroundTick = some d ∧
      (∀ x, opsOn x betweenHalves = opsOn x aroundTick) ∧
      (∀ x, (start Timers.stopped).readings x betweenHalves =
        (start Timers.stopped).readings x aroundTick) ∧
      c.timers = d.timers ∧ c.tones = d.tones ∧ c.tones = 1 ∧
      (∀ x, (c.timers.value x).toNat = 2 - 1) ∧
      ∃ value later, (start Timers.stopped).readings .delay betweenHalves = [] ++ value :: later ∧
        value.toNat = 2 - 1 := by
  obtain ⟨hagree, hvalue, hget, _⟩ := interleavings_agree
  have hfirst : (start Timers.stopped).play? betweenHalves =
      some ⟨⟨1, 1⟩, 1, true, .checking, .starting, []⟩ := by decide
  have hsecond : (start Timers.stopped).play? aroundTick =
      some ⟨⟨1, 1⟩, 1, true, .checking, .starting, []⟩ := by decide
  have horder : ∀ x, opsOn x betweenHalves = opsOn x aroundTick := by
    intro x
    cases x <;> rfl
  obtain ⟨hreadings, htimers, htones⟩ := hagree _ _ _ _ _ hfirst hsecond horder
  refine ⟨_, _, hfirst, hsecond, horder, hreadings, htimers, htones, rfl, fun x => ?_,
    hget [.setDelay 2, .check, .tickDelay, .setSound 2, .tickSound] .getDelay [] _ .delay hfirst rfl⟩
  cases x with
  | delay => exact hvalue betweenHalves _ hfirst .delay
  | sound => exact hvalue betweenHalves _ hfirst .sound

end Chip8.Clock
