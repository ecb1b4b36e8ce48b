import Chip8.Machine.Step

/-!
# What a host does with a session

A host takes steps, lets the timers tick, brings another keypad, or writes to the parts of the machine that are
open to it. Whatever it does is a list of events, one after the other.
-/
namespace Chip8

inductive Event where
  | step
  | tick (n : Nat)
  | keypad (k : Keypad)
  /-- The host makes the session `t`, but for the program counter and the call stack. -/
  | edit (t : Session)

/-- Whether the host writes to no part of the machine itself. -/
def Event.IsPassive : Event → Prop
  | edit _ => False
  | _ => True

namespace Session

/-- The session after an event. A step that fails counts as one. -/
def after (s : Session) : Event → Session
  | .step => s.step.state
  | .tick n => { s with machine := (s.machine.tick n).1 }
  | .keypad k => { s with keypad := k }
  | .edit t => { t with machine := { t.machine with pc := s.machine.pc, stack := s.machine.stack } }

def play (s : Session) (events : List Event) : Session := events.foldl after s

theorem play_cons (s : Session) (e : Event) (rest : List Event) :
    s.play (e :: rest) = (s.after e).play rest := rfl

theorem play_concat (s : Session) (events : List Event) (e : Event) :
    s.play (events ++ [e]) = (s.play events).after e := by
  rw [play, List.foldl_append]
  rfl

end Session

end Chip8
