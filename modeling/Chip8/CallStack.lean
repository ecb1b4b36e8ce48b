import Chip8.Word

/-!
# The call stack

Return addresses of the subroutines under way, the latest first. There is no limit on the depth.
-/
namespace Chip8

structure CallStack where
  frames : List Address
deriving DecidableEq, Repr

namespace CallStack

def empty : CallStack := ⟨[]⟩

def push (s : CallStack) (a : Address) : CallStack := ⟨a :: s.frames⟩

/-- The latest return address and the stack without it. -/
def pop? (s : CallStack) : Option (Address × CallStack) :=
  match s.frames with
  | [] => none
  | a :: rest => some (a, ⟨rest⟩)

def depth (s : CallStack) : Nat := s.frames.length

def isEmpty (s : CallStack) : Bool := s.frames.isEmpty

theorem pop?_push (s : CallStack) (a : Address) : (s.push a).pop? = some (a, s) := rfl

theorem pop?_eq_some_iff {s rest : CallStack} {a : Address} :
    s.pop? = some (a, rest) ↔ s.frames = a :: rest.frames := by
  obtain ⟨frames⟩ := s
  obtain ⟨below⟩ := rest
  cases frames with
  | nil => simp [pop?]
  | cons top rest => simp [pop?]

theorem depth_push (s : CallStack) (a : Address) : (s.push a).depth = s.depth + 1 := rfl

end CallStack

end Chip8
