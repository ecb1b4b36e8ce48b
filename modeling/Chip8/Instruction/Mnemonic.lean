import Chip8.Instruction.Basic
import Chip8.Text.Hex

/-!
# Mnemonics

The assembly form of an instruction: the name of its operation and its operands. The text of the form
is the name, a blank and the operands with commas between them, as in "LD V0, 0x05". Hexadecimal operands have
a least width and grow beyond it; a register shows its whole index.
-/
namespace Chip8

inductive Operand where
  | register (x : UInt8)
  | byte (nn : UInt8)
  | address (nnn : Address)
  | count (n : UInt8)
  | index
  | indirect
  | delay
  | sound
  | key
  | glyph
  | decimal
deriving DecidableEq, Repr

def Operand.chars : Operand → List Char
  | register x => 'V' :: Text.Hex.digits x.toNat
  | byte nn => '0' :: 'x' :: Text.Hex.padded 2 nn.toNat
  | address nnn => '0' :: 'x' :: Text.Hex.padded 3 nnn.toNat
  | count n => Nat.toDigits 10 n.toNat
  | index => ['I']
  | indirect => ['[', 'I', ']']
  | delay => ['D', 'T']
  | sound => ['S', 'T']
  | key => ['K']
  | glyph => ['F']
  | decimal => ['B']

structure Mnemonic where
  name : String
  operands : List Operand
deriving DecidableEq, Repr

def Mnemonic.chars (m : Mnemonic) : List Char :=
  match m.operands with
  | [] => m.name.toList
  | first :: rest =>
    m.name.toList ++ ' ' :: first.chars ++ rest.flatMap fun o => ',' :: ' ' :: o.chars

namespace Instruction

open Operand in
/-- The operation's name and its operands. -/
def mnemonic : Instruction → Mnemonic
  | clearScreen => ⟨"CLS", []⟩
  | ret => ⟨"RET", []⟩
  | jump nnn => ⟨"JP", [address nnn]⟩
  | call nnn => ⟨"CALL", [address nnn]⟩
  | skipIfEqual x nn => ⟨"SE", [register x, byte nn]⟩
  | skipIfNotEqual x nn => ⟨"SNE", [register x, byte nn]⟩
  | skipIfSame x y => ⟨"SE", [register x, register y]⟩
  | load x nn => ⟨"LD", [register x, byte nn]⟩
  | add x nn => ⟨"ADD", [register x, byte nn]⟩
  | move x y => ⟨"LD", [register x, register y]⟩
  | or x y => ⟨"OR", [register x, register y]⟩
  | and x y => ⟨"AND", [register x, register y]⟩
  | xor x y => ⟨"XOR", [register x, register y]⟩
  | addRegister x y => ⟨"ADD", [register x, register y]⟩
  | sub x y => ⟨"SUB", [register x, register y]⟩
  | shiftRight x => ⟨"SHR", [register x]⟩
  | subReversed x y => ⟨"SUBN", [register x, register y]⟩
  | shiftLeft x => ⟨"SHL", [register x]⟩
  | skipIfDifferent x y => ⟨"SNE", [register x, register y]⟩
  | loadIndex nnn => ⟨"LD", [index, address nnn]⟩
  | jumpOffset nnn => ⟨"JP", [register 0, address nnn]⟩
  | random x nn => ⟨"RND", [register x, byte nn]⟩
  | draw x y n => ⟨"DRW", [register x, register y, count n]⟩
  | skipIfKey x => ⟨"SKP", [register x]⟩
  | skipIfNotKey x => ⟨"SKNP", [register x]⟩
  | readDelay x => ⟨"LD", [register x, delay]⟩
  | waitKey x => ⟨"LD", [register x, key]⟩
  | setDelay x => ⟨"LD", [delay, register x]⟩
  | setSound x => ⟨"LD", [sound, register x]⟩
  | addIndex x => ⟨"ADD", [index, register x]⟩
  | loadGlyph x => ⟨"LD", [glyph, register x]⟩
  | storeDecimal x => ⟨"LD", [decimal, register x]⟩
  | storeRegisters x => ⟨"LD", [indirect, register x]⟩
  | loadRegisters x => ⟨"LD", [register x, indirect]⟩

/-- The assembly text of an instruction. -/
def text (i : Instruction) : String := String.ofList i.mnemonic.chars

end Instruction

end Chip8
