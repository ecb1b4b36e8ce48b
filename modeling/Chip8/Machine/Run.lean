import Chip8.Log
import Chip8.Machine.Step

/-!
# Runs

A run takes step after step until it reaches the limit of the machine's configuration or a step fails. The
limit counts the steps of the run and is looked at before each of them. A run keeps a log: each word fetched and
decoded is recorded before it is executed, and the last record tells how the run ended. Loading an image before the run
is recorded too.
-/
namespace Chip8

/-- What the loading of an image puts into the log: nothing, if the image is refused. -/
def Machine.loadLog (m : Machine) (image : Image) : List Log.Record :=
  match m.load image with
  | .done _ => [.loaded image.length]
  | .faulted _ _ => []
  | .trapped _ _ => []

/-- A run under way: the session, the steps taken so far, and the log. -/
structure Run where
  session : Session
  steps : Nat
  log : Array Log.Record

/-- Why a run goes no further. -/
inductive Run.Stop where
  | limit
  | fault (f : Fault)
  | trap (t : Trap)
deriving DecidableEq, Repr

/-- A run that goes on, or has stopped. -/
inductive Run.Progress where
  | underway (r : Run)
  | stopped (why : Run.Stop) (r : Run)

namespace Run

def Progress.run : Progress → Run
  | underway r => r
  | stopped _ r => r

def record (r : Run) (entry : Log.Record) : Run := { r with log := r.log.push entry }

/-- Records the word at the program counter, if it is an instruction. -/
def traceFetch (r : Run) : Run :=
  match r.session.machine.fetch with
  | .ok (w, _) => r.record (.executing r.session.machine.pc w)
  | .error _ => r

/-- Takes a step. -/
def step (r : Run) : Progress :=
  let traced := r.traceFetch
  match r.session.step with
  | .done s => .underway { traced with session := s, steps := r.steps + 1 }
  | .faulted f s => .stopped (.fault f) { traced with session := s }
  | .trapped t s => .stopped (.trap t) { traced with session := s }

/-- Takes `n` steps, or as many as succeed. -/
def advance : Nat → Run → Progress
  | 0, r => .underway r
  | n + 1, r =>
    match r.step with
    | .underway next => advance n next
    | .stopped why last => .stopped why last

def limitReached (r : Run) : Bool :=
  match r.session.machine.config.limit with
  | some limit => limit ≤ r.steps
  | none => false

/-- Takes a step unless the limit is reached, and records the end of the run. -/
def turn (r : Run) : Progress :=
  if r.limitReached then .stopped .limit (r.record (.limitReached r.steps))
  else
    match r.step with
    | .stopped (.fault f) last => .stopped (.fault f) (last.record (.halted last.steps f))
    | progress => progress

/-- Ticks the timers `n` times. -/
def tick (n : Nat) (r : Run) : Run :=
  { r with session := { r.session with machine := (r.session.machine.tick n).1 } }

/-- Takes at most `patience` turns, with `ticks k` ticks of the timers before the step that has `k` steps
before it. -/
def turns (ticks : Nat → Nat) : Nat → Run → Progress
  | 0, r => .underway r
  | patience + 1, r =>
    match (r.tick (ticks r.steps)).turn with
    | .underway next => turns ticks patience next
    | .stopped why last => .stopped why last

end Run

namespace Session

/-- A run that has taken no step. -/
def start (s : Session) : Run :=
  ⟨s, 0, #[.running s.machine.config.rate s.machine.config.limit]⟩

/-- Runs a session for at most `patience` turns. A run with a limit of `n` steps needs `n + 1` at most. -/
def run (s : Session) (ticks : Nat → Nat) (patience : Nat) : Run.Progress :=
  Run.turns ticks patience s.start

end Session

end Chip8
