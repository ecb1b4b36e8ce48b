import Chip8.Word

/-!
# Instructions

One constructor per instruction of the machine. Register operands `x` and `y`, the immediate `nn`
and the length `n` are bytes and the address `nnn` is sixteen bits wide: an instruction read from a word
uses only the low nibbles, one that is built by hand may use the whole width.
-/
namespace Chip8

inductive Instruction where
  | clearScreen
  | ret
  | jump (nnn : Address)
  | call (nnn : Address)
  | skipIfEqual (x nn : UInt8)
  | skipIfNotEqual (x nn : UInt8)
  | skipIfSame (x y : UInt8)
  | load (x nn : UInt8)
  | add (x nn : UInt8)
  | move (x y : UInt8)
  | or (x y : UInt8)
  | and (x y : UInt8)
  | xor (x y : UInt8)
  | addRegister (x y : UInt8)
  | sub (x y : UInt8)
  | shiftRight (x : UInt8)
  | subReversed (x y : UInt8)
  | shiftLeft (x : UInt8)
  | skipIfDifferent (x y : UInt8)
  | loadIndex (nnn : Address)
  | jumpOffset (nnn : Address)
  | random (x nn : UInt8)
  | draw (x y n : UInt8)
  | skipIfKey (x : UInt8)
  | skipIfNotKey (x : UInt8)
  | readDelay (x : UInt8)
  | waitKey (x : UInt8)
  | setDelay (x : UInt8)
  | setSound (x : UInt8)
  | addIndex (x : UInt8)
  | loadGlyph (x : UInt8)
  | storeDecimal (x : UInt8)
  | storeRegisters (x : UInt8)
  | loadRegisters (x : UInt8)
deriving DecidableEq, Repr

end Chip8
