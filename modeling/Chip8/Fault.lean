import Chip8.Word
import Chip8.Text.Hex

/-!
# Faults

The causes for which loading, reading or running a program stops. A fault of a running program carries
the address of the instruction at fault.
-/
namespace Chip8

inductive Fault where
  | invalidInstruction (opcode : Word) (pc : Address)
  | stackUnderflow (pc : Address)
  | addressOutOfBounds (address : Nat) (pc : Address)
  | programTooLarge (length capacity : Nat)
  | unreadable (reason : String)
deriving DecidableEq, Repr

/-- A number in messages: its numeral with at least `width` digits. -/
private def hexadecimal (width n : Nat) : String :=
  "0x" ++ String.ofList (Text.Hex.padded width n)

/-- The sentence that reports a fault. -/
def Fault.message : Fault → String
  | invalidInstruction opcode pc =>
    "invalid instruction " ++ hexadecimal 4 opcode.toNat ++ " at " ++ hexadecimal 3 pc.toNat
  | stackUnderflow pc =>
    "stack underflow: return at " ++ hexadecimal 3 pc.toNat ++ " with an empty call stack"
  | addressOutOfBounds address pc =>
    "address " ++ hexadecimal 4 address ++ " out of bounds (instruction at "
      ++ hexadecimal 3 pc.toNat ++ ")"
  | programTooLarge length capacity =>
    "program of " ++ toString length ++ " bytes does not fit in " ++ toString capacity
      ++ " bytes of program memory"
  | unreadable reason => "io error: " ++ reason

end Chip8
