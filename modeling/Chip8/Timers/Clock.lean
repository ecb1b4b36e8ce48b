import Chip8.Log
import Chip8.Timers.Basic

/-!
# The timer clock

A clock ticks the timers from a thread of its own. Thread, owner and program take turns in any order, one
small action at a time, and `act` says what each action does and when it is possible. The thread looks at a flag
before each tick and leaves once the flag is clear. The owner shuts the clock down by clearing the flag and waiting for
the thread; a second shutdown finds nothing to wait for.
-/
namespace Chip8

/-- Ticks per second. -/
def Clock.frequency : Nat := 60

/-- Where the ticking thread stands. -/
inductive Clock.Thread where
  /-- About to look at the flag. -/
  | checking
  /-- The flag was set: a tick is due. -/
  | due
  /-- The delay timer is ticked and the sound timer is not. -/
  | halfway
  /-- The flag was clear: about to report and leave. -/
  | leaving
  | finished
deriving DecidableEq, Repr

/-- Where the owner of the clock stands. -/
inductive Clock.Owner where
  /-- The thread runs and the start is not reported yet. -/
  | starting
  | holding
  /-- The flag is cleared and the thread not yet waited for. -/
  | waiting
  /-- The thread was waited for and the stop is not reported yet. -/
  | joined
  | released
deriving DecidableEq, Repr

structure Clock where
  timers : Timers
  tones : Nat
  flag : Bool
  thread : Clock.Thread
  owner : Clock.Owner
  log : List Log.Record
deriving DecidableEq, Repr

namespace Clock

inductive Action where
  | check
  | tickDelay
  | tickSound
  | leave
  | reportStart
  | clearFlag
  | join
  | reportStop
  /-- Shuts the clock down once more. -/
  | shutdownAgain
  | setDelay (value : UInt8)
  | setSound (value : UInt8)
  | getDelay
  | getSound
deriving DecidableEq, Repr

/-- A clock whose thread was just started. -/
def start (timers : Timers) : Clock :=
  ⟨timers, 0, true, .checking, .starting, []⟩

/-- The clock after an action, if the action is possible. The log has the latest record first. -/
def act? (c : Clock) : Action → Option Clock
  | .check =>
    if c.thread = .checking then some { c with thread := if c.flag then .due else .leaving }
    else none
  | .tickDelay =>
    if c.thread = .due then some { c with timers := c.timers.tickDelay, thread := .halfway }
    else none
  | .tickSound =>
    if c.thread = .halfway then
      let (timers, tone) := c.timers.tickSound
      some { c with timers := timers, tones := c.tones + tone.toNat, thread := .checking }
    else none
  | .leave =>
    if c.thread = .leaving then some { c with thread := .finished, log := .clockExiting :: c.log }
    else none
  | .reportStart =>
    if c.owner = .starting then
      some { c with owner := .holding, log := .clockStarted frequency :: c.log }
    else none
  | .clearFlag =>
    if c.owner = .holding then some { c with owner := .waiting, flag := false } else none
  | .join =>
    if c.owner = .waiting ∧ c.thread = .finished then some { c with owner := .joined } else none
  | .reportStop =>
    if c.owner = .joined then some { c with owner := .released, log := .clockStopped :: c.log }
    else none
  | .shutdownAgain => if c.owner = .released then some { c with flag := false } else none
  | .setDelay value => some { c with timers := { c.timers with delay := value } }
  | .setSound value => some { c with timers := { c.timers with sound := value } }
  | .getDelay | .getSound => some c

/-- The clock after a sequence of actions, if each is possible in its turn. -/
def play? (c : Clock) : List Action → Option Clock
  | [] => some c
  | a :: rest => (c.act? a).bind fun next => next.play? rest

/-- Whether the clock was not shut down and its thread has not left. -/
def isRunning (c : Clock) : Bool :=
  (c.owner = .starting || c.owner = .holding) && c.thread != .finished

/-- One turn of the thread while the flag is set. -/
def turn : List Action := [.check, .tickDelay, .tickSound]

/-- The turns that take both timers to zero. -/
def turnsToZero (t : Timers) : List Action :=
  (List.replicate (max t.delay.toNat t.sound.toNat) turn).flatten

/-- A shutdown that finds the thread about to look at the flag. -/
def shutdown : List Action := [.clearFlag, .check, .leave, .join, .reportStop]

theorem play?_append (c : Clock) (first second : List Action) :
    c.play? (first ++ second) = (c.play? first).bind fun next => next.play? second := by
  induction first generalizing c with
  | nil => rfl
  | cons a rest ih =>
    simp only [List.cons_append, play?]
    cases c.act? a with
    | none => rfl
    | some next => exact ih next

end Clock

end Chip8
