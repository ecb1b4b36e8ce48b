import Chip8.Fault
import Chip8.Image.Listing

/-!
# The log

What the machine and the timer clock report while they work. A record has a level and a text; the record of
an instruction about to be executed is the line that a listing has for its word.
-/
namespace Chip8

namespace Log

inductive Level where
  | error
  | info
  | debug
  | trace
deriving DecidableEq, Repr

def Level.name : Level → String
  | error => "ERROR"
  | info => "INFO"
  | debug => "DEBUG"
  | trace => "TRACE"

inductive Record where
  /-- An image of so many bytes was loaded. -/
  | loaded (length : Nat)
  /-- A run starts, at so many instructions per second and with a limit on its steps. -/
  | running (rate : Nat) (limit : Option Nat)
  /-- A word was fetched and is about to be executed. -/
  | executing (address : Address) (w : Word)
  /-- A run ended at its limit. -/
  | limitReached (steps : Nat)
  /-- A run was ended by a fault. -/
  | halted (steps : Nat) (fault : Fault)
  | clockStarted (frequency : Nat)
  | clockExiting
  | clockStopped
deriving DecidableEq, Repr

namespace Record

def level : Record → Level
  | loaded _ => .info
  | running _ _ => .debug
  | executing _ _ => .trace
  | limitReached _ => .debug
  | halted _ _ => .error
  | clockStarted _ => .info
  | clockExiting => .debug
  | clockStopped => .info

def limitText : Option Nat → String
  | some n => "Some(" ++ toString n ++ ")"
  | none => "None"

def text : Record → String
  | loaded length =>
    "loaded program of " ++ toString length ++ " bytes at 0x"
      ++ String.ofList (Text.Hex.padded 3 Image.base.toNat)
  | running rate limit =>
    "running at " ++ toString rate ++ " instructions/s, limit " ++ limitText limit
  | executing address w => String.ofList (Listing.line address.toNat w)
  | limitReached steps => "step limit reached after " ++ toString steps ++ " steps"
  | halted steps fault =>
    "halted after " ++ toString steps ++ " steps: " ++ fault.message
  | clockStarted frequency => "timer clock started at " ++ toString frequency ++ " Hz"
  | clockExiting => "timer clock thread exiting"
  | clockStopped => "timer clock stopped"

end Record

end Log

end Chip8
