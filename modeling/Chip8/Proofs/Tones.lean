import Chip8.Proofs.TimerAccess

/-!
# Tones

While a session goes on, its timers are set by its program and by others, and a counter hears the tones of the ticks. In
the end the counter shows how long each value of the sound timer has lasted: as many ticks as the value says, or as many
as came before the next value.
-/
namespace Chip8

/-- What happens to a session and its timers. -/
inductive Occurrence where
  | setDelay (value : UInt8)
  | setSound (value : UInt8)
  | tickDelay
  /-- Both timers tick so many times, and the counter hears the tones. -/
  | tick (n : Nat)
  | step
  | execute (i : Instruction) (here : Address)

/-- A session, and the number of tones heard so far. -/
structure Listening where
  session : Session
  tones : Nat

namespace Session

/-- The accesses to the timers that come with an occurrence. -/
def accessesOf (s : Session) : Occurrence → List Timers.Access
  | .setDelay value => [⟨.delay, .set value⟩]
  | .setSound value => [⟨.sound, .set value⟩]
  | .tickDelay => [⟨.delay, .tick⟩]
  | .tick n => Timers.wholeTicks n
  | .step => s.stepExecution?.toList.flatMap Execution.accesses
  | .execute i here => (s.execution? i here).toList.flatMap Execution.accesses

theorem accessAll_execution {s : Session} {e : Execution}
    (h : e.before.machine.timers = s.machine.timers) :
    s.machine.timers.accessAll ((some e).toList.flatMap Execution.accesses) =
      (e.after.machine.timers, 0) := by
  have haccesses : (some e).toList.flatMap Execution.accesses = e.accesses := List.append_nil _
  rw [haccesses, ← h, e.accessAll_accesses]

theorem accessAll_step (s : Session) :
    s.machine.timers.accessAll (s.accessesOf .step) = (s.step.state.machine.timers, 0) := by
  cases h : s.step with
  | done t =>
    obtain ⟨e, he, hbefore, _, rfl⟩ := stepExecution?_of_done h
    have htimers : e.before.machine.timers = s.machine.timers := by
      rw [hbefore]
      rfl
    rw [accessesOf, he]
    exact accessAll_execution htimers
  | faulted f t =>
    rw [accessesOf, stepExecution?_of_faulted h, (step_faulted_iff.mp h).2]
    rfl
  | trapped trap t => exact absurd h step_ne_trapped

theorem accessAll_execute (s : Session) (i : Instruction) (here : Address) :
    s.machine.timers.accessAll (s.accessesOf (.execute i here)) =
      ((s.execute i here).state.machine.timers, 0) := by
  cases h : s.execute i here with
  | done t =>
    rw [accessesOf, execution?_of_done h]
    exact accessAll_execution rfl
  | faulted f t =>
    have hnone := execution?_of_not_done fun u hu => nomatch h.symm.trans hu
    rw [accessesOf, hnone, (execute_faulted_iff.mp h).2.2]
    rfl
  | trapped trap t =>
    have hnone := execution?_of_not_done fun u hu => nomatch h.symm.trans hu
    have htimers : t.machine.timers = s.machine.timers :=
      congrArg Machine.timers (execute_trapped_machine h)
    rw [accessesOf, hnone, Outcome.state, htimers]
    rfl

end Session

namespace Listening

def after (l : Listening) : Occurrence → Listening
  | .setDelay value =>
    { l with session := l.session.setTimers { l.session.machine.timers with delay := value } }
  | .setSound value =>
    { l with session := l.session.setTimers { l.session.machine.timers with sound := value } }
  | .tickDelay => { l with session := l.session.setTimers l.session.machine.timers.tickDelay }
  | .tick n =>
    { session := { l.session with machine := (l.session.machine.tick n).1 }
      tones := l.tones + (l.session.machine.tick n).2 }
  | .step => { l with session := l.session.step.state }
  | .execute i here => { l with session := (l.session.execute i here).state }

def afterAll (l : Listening) (history : List Occurrence) : Listening := history.foldl after l

/-- The accesses to the timers that come with a history, the first one first. -/
def accesses (l : Listening) : List Occurrence → List Timers.Access
  | [] => []
  | o :: rest => l.session.accessesOf o ++ (l.after o).accesses rest

/-- What is done to the sound timer. -/
def soundOps (l : Listening) (history : List Occurrence) : List Timer.Op :=
  Timers.Access.on .sound (l.accesses history)

/-- What an occurrence does to the timers is what its accesses do, and the counter hears their tones. -/
theorem after_timers (l : Listening) (o : Occurrence) :
    (l.after o).session.machine.timers =
        (l.session.machine.timers.accessAll (l.session.accessesOf o)).1 ∧
      (l.after o).tones =
        l.tones + (l.session.machine.timers.accessAll (l.session.accessesOf o)).2 := by
  cases o with
  | setDelay | setSound | tickDelay => exact ⟨rfl, rfl⟩
  | tick n =>
    have hticks := Timers.tickMany_eq n l.session.machine.timers
    exact ⟨congrArg Prod.fst hticks, congrArg (fun heard : Timers × Nat => l.tones + heard.2) hticks⟩
  | step =>
    rw [l.session.accessAll_step]
    exact ⟨rfl, rfl⟩
  | execute i here =>
    rw [l.session.accessAll_execute]
    exact ⟨rfl, rfl⟩

theorem afterAll_timers (l : Listening) (history : List Occurrence) :
    (l.afterAll history).session.machine.timers =
        (l.session.machine.timers.accessAll (l.accesses history)).1 ∧
      (l.afterAll history).tones =
        l.tones + (l.session.machine.timers.accessAll (l.accesses history)).2 := by
  induction history generalizing l with
  | nil => exact ⟨rfl, rfl⟩
  | cons o rest ih =>
    obtain ⟨htimers, htones⟩ := l.after_timers o
    obtain ⟨hlast, hheard⟩ := ih (l.after o)
    rw [accesses, Timers.accessAll_append, ← htimers, ← Nat.add_assoc, ← htones]
    exact ⟨hlast, hheard⟩

/-- Of a session whose timers are at zero to begin with, the counter shows, summed over all values that the sound timer
was set to, as many tones as the value says or as there were ticks until the next value or the end, whichever is less.
The sound timer stands at the last value less the ticks since then. If from there both timers are set and tick as often
as the greater of them says or more, both are at zero, and the tones of the sound timer have been heard in full. -/
theorem tones_add_up (s : Session) (hs : s.machine.timers = Timers.stopped)
    (history : List Occurrence) :
    let start : Listening := ⟨s, 0⟩
    let l := start.afterAll history
    let ops := start.soundOps history
    l.tones = ((Timer.writes ops).map fun w => min w.1.toNat w.2).sum ∧
      l.session.machine.timers.sound.toNat =
        (Timer.lastSet ops).toNat - Timer.ticksSinceSet ops ∧
      ∀ (d v : UInt8) (n : Nat), max d.toNat v.toNat ≤ n →
        let last := l.afterAll [.setDelay d, .setSound v, .tick n]
        last.session.machine.timers = Timers.stopped ∧ last.tones = l.tones + v.toNat := by
  intro start l ops
  obtain ⟨htimers, htones⟩ := start.afterAll_timers history
  have hzero : start.session.machine.timers.sound = 0 := congrArg Timers.sound hs
  refine ⟨?_, ?_, fun d v n hn => ?_⟩
  · rw [htones, Timers.tones_accessAll, hzero, Timer.counted_zero]
    exact Nat.zero_add _
  · have hsound : l.session.machine.timers.sound = Timer.afterAll 0 ops := by
      rw [← hzero]
      exact (congrArg Timers.sound htimers).trans (Timers.value_accessAll _ .sound _)
    rw [hsound, Timer.toNat_afterAll]
  · have hvalue : ∀ x, (Timers.value ⟨d, v⟩ x).toNat ≤ n := by
      intro x
      cases x with
      | delay => exact Nat.le_trans (Nat.le_max_left _ _) hn
      | sound => exact Nat.le_trans (Nat.le_max_right _ _) hn
    have hout := Timers.tickMany_of_le hvalue
    exact ⟨congrArg Prod.fst hout, congrArg (fun heard : Timers × Nat => l.tones + heard.2) hout⟩

/-- A session whose program sets the sound timer to 3 and then comes to a zero word. -/
def beeping : Session where
  machine := { Machine.ofSeed 7 with
    memory := Memory.fresh.putAll 0x200 [0x60, 0x03, 0xF0, 0x18] }
  keypad := Keypad.untouched

/-- The program's 3 is cut short after two ticks, 200 after three; the next 3, set by hand, runs out. -/
def cutShort : List Occurrence :=
  [.tick 1, .step, .step, .setDelay 4, .tick 2, .setSound 200, .tick 1, .tickDelay, .step, .tick 2,
    .execute (.setSound 0) 0x300, .tick 5]

theorem beeping_soundOps : (Listening.mk beeping 0).soundOps cutShort =
    [.tick, .set 3, .tick, .tick, .set 200, .tick, .tick, .tick, .set 3, .tick, .tick, .tick, .tick,
      .tick] := by
  decide +kernel

/-- Two tones, three and three are heard, and 255 more if the sound timer is set to 255 then. -/
theorem tones_add_up_cut_short :
    beeping.machine.timers = Timers.stopped ∧
      ((Listening.mk beeping 0).afterAll cutShort).tones = 2 + 3 + 3 ∧
      ((Listening.mk beeping 0).afterAll cutShort).session.machine.timers.sound.toNat = 3 - 5 ∧
      max (9 : UInt8).toNat (255 : UInt8).toNat ≤ 300 ∧
      (((Listening.mk beeping 0).afterAll cutShort).afterAll
        [.setDelay 9, .setSound 255, .tick 300]).tones = 8 + 255 := by
  have hstart : beeping.machine.timers = Timers.stopped := rfl
  have hall := tones_add_up beeping hstart cutShort
  dsimp only at hall
  rw [beeping_soundOps] at hall
  obtain ⟨htones, hsound, hout⟩ := hall
  have hn : max (9 : UInt8).toNat (255 : UInt8).toNat ≤ 300 := by decide
  have hlast := (hout 9 255 300 hn).2
  rw [htones] at hlast
  exact ⟨hstart, htones, hsound, hn, hlast⟩

end Listening

end Chip8
