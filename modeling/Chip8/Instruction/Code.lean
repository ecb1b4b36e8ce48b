import Chip8.Instruction.Basic

/-!
# The code of an instruction

`decode` reads a word as an instruction and `encode` writes an instruction as a word. A word is known
by its first nibble and then by its last one or two; 8xy6 and 8xyE carry a nibble that means nothing, which
`encode` leaves zero.
-/
namespace Chip8.Instruction

/-- The instruction of a word, or `none` if the word is no instruction. -/
def decode (w : Word) : Option Instruction :=
  let q := w.nibbles
  let x := q.second
  let y := q.third
  let n := q.fourth
  let nn := Byte.ofNibbles y n
  let nnn := Address.ofNibbles x y n
  match q.first.toNat with
  | 0x0 =>
    match nnn.toNat with
    | 0x0E0 => some .clearScreen
    | 0x0EE => some .ret
    | _ => none
  | 0x1 => some (.jump nnn)
  | 0x2 => some (.call nnn)
  | 0x3 => some (.skipIfEqual x nn)
  | 0x4 => some (.skipIfNotEqual x nn)
  | 0x5 => if n = 0 then some (.skipIfSame x y) else none
  | 0x6 => some (.load x nn)
  | 0x7 => some (.add x nn)
  | 0x8 =>
    match n.toNat with
    | 0x0 => some (.move x y)
    | 0x1 => some (.or x y)
    | 0x2 => some (.and x y)
    | 0x3 => some (.xor x y)
    | 0x4 => some (.addRegister x y)
    | 0x5 => some (.sub x y)
    | 0x6 => some (.shiftRight x)
    | 0x7 => some (.subReversed x y)
    | 0xE => some (.shiftLeft x)
    | _ => none
  | 0x9 => if n = 0 then some (.skipIfDifferent x y) else none
  | 0xA => some (.loadIndex nnn)
  | 0xB => some (.jumpOffset nnn)
  | 0xC => some (.random x nn)
  | 0xD => some (.draw x y n)
  | 0xE =>
    match nn.toNat with
    | 0x9E => some (.skipIfKey x)
    | 0xA1 => some (.skipIfNotKey x)
    | _ => none
  | 0xF =>
    match nn.toNat with
    | 0x07 => some (.readDelay x)
    | 0x0A => some (.waitKey x)
    | 0x15 => some (.setDelay x)
    | 0x18 => some (.setSound x)
    | 0x1E => some (.addIndex x)
    | 0x29 => some (.loadGlyph x)
    | 0x33 => some (.storeDecimal x)
    | 0x55 => some (.storeRegisters x)
    | 0x65 => some (.loadRegisters x)
    | _ => none
  | _ => none

/-- The word with a first nibble, a register operand and a last byte. -/
def withByte (family x nn : UInt8) : Word :=
  Word.ofNibbles ⟨family, x, UInt8.ofNat (nn.toNat / 16), UInt8.ofNat (nn.toNat % 16)⟩

/-- The word with a first nibble and an address. -/
def withAddress (family : UInt8) (nnn : Address) : Word :=
  Word.ofNibbles ⟨family, UInt8.ofNat (nnn.toNat / 256 % 16), UInt8.ofNat (nnn.toNat / 16 % 16),
    UInt8.ofNat (nnn.toNat % 16)⟩

/-- The word of an instruction. Register operands and lengths enter by their low four bits, addresses
by their low twelve. -/
def encode : Instruction → Word
  | clearScreen => 0x00E0
  | ret => 0x00EE
  | jump nnn => withAddress 0x1 nnn
  | call nnn => withAddress 0x2 nnn
  | skipIfEqual x nn => withByte 0x3 x nn
  | skipIfNotEqual x nn => withByte 0x4 x nn
  | skipIfSame x y => Word.ofNibbles ⟨0x5, x, y, 0x0⟩
  | load x nn => withByte 0x6 x nn
  | add x nn => withByte 0x7 x nn
  | move x y => Word.ofNibbles ⟨0x8, x, y, 0x0⟩
  | or x y => Word.ofNibbles ⟨0x8, x, y, 0x1⟩
  | and x y => Word.ofNibbles ⟨0x8, x, y, 0x2⟩
  | xor x y => Word.ofNibbles ⟨0x8, x, y, 0x3⟩
  | addRegister x y => Word.ofNibbles ⟨0x8, x, y, 0x4⟩
  | sub x y => Word.ofNibbles ⟨0x8, x, y, 0x5⟩
  | shiftRight x => Word.ofNibbles ⟨0x8, x, 0x0, 0x6⟩
  | subReversed x y => Word.ofNibbles ⟨0x8, x, y, 0x7⟩
  | shiftLeft x => Word.ofNibbles ⟨0x8, x, 0x0, 0xE⟩
  | skipIfDifferent x y => Word.ofNibbles ⟨0x9, x, y, 0x0⟩
  | loadIndex nnn => withAddress 0xA nnn
  | jumpOffset nnn => withAddress 0xB nnn
  | random x nn => withByte 0xC x nn
  | draw x y n => Word.ofNibbles ⟨0xD, x, y, n⟩
  | skipIfKey x => withByte 0xE x 0x9E
  | skipIfNotKey x => withByte 0xE x 0xA1
  | readDelay x => withByte 0xF x 0x07
  | waitKey x => withByte 0xF x 0x0A
  | setDelay x => withByte 0xF x 0x15
  | setSound x => withByte 0xF x 0x18
  | addIndex x => withByte 0xF x 0x1E
  | loadGlyph x => withByte 0xF x 0x29
  | storeDecimal x => withByte 0xF x 0x33
  | storeRegisters x => withByte 0xF x 0x55
  | loadRegisters x => withByte 0xF x 0x65

end Chip8.Instruction
