import Chip8.Proofs.Rounds

/-!
# What a host asks of a machine

A host loads images, takes steps, runs the machine, lets the timers tick and brings other keypads. An operation that fails
counts as one. All but loading come down to ticks, steps and keypads, so what events keep a list of operations
keeps as well, if loading does.
-/
namespace Chip8

inductive Operation where
  | load (image : Image)
  | step
  /-- A run for at most `patience` turns, with `ticks k` ticks before the step that has `k` steps before it. -/
  | run (ticks : Nat → Nat) (patience : Nat)
  | tick (n : Nat)
  | keypad (k : Keypad)

namespace Session

/-- The session after an operation. -/
def perform (s : Session) : Operation → Session
  | .load image => { s with machine := (s.machine.load image).state }
  | .step => s.step.state
  | .run ticks patience => (s.run ticks patience).run.session
  | .tick n => { s with machine := (s.machine.tick n).1 }
  | .keypad k => { s with keypad := k }

def performAll (s : Session) (operations : List Operation) : Session :=
  operations.foldl perform s

/-- The ticks, steps and keypads of an operation. -/
def eventsOf (s : Session) : Operation → List Event
  | .load _ => []
  | .step => [.step]
  | .run ticks patience => (s.run ticks patience).events ticks
  | .tick n => [.tick n]
  | .keypad k => [.keypad k]

/-- The instructions that the steps of a list of operations execute, the first one first. -/
def executedAll (s : Session) : List Operation → List Instruction
  | [] => []
  | o :: rest => s.executed (s.eventsOf o) ++ (s.perform o).executedAll rest

/-- An operation is a load or a list of events. -/
theorem perform_cases (s : Session) (o : Operation) :
    (∃ image, s.perform o = { s with machine := (s.machine.load image).state } ∧
      s.eventsOf o = []) ∨
      s.perform o = s.play (s.eventsOf o) := by
  cases o with
  | load image => exact Or.inl ⟨image, rfl, rfl⟩
  | step => exact Or.inr rfl
  | run ticks patience => exact Or.inr (Run.run_session s ticks patience)
  | tick n => exact Or.inr rfl
  | keypad k => exact Or.inr rfl

end Session

end Chip8
