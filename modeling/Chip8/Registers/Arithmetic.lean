import Chip8.Memory.Basic
import Chip8.Registers.Basic

/-!
# Register arithmetic

The instructions that compute on registers alone. Operands are taken before anything is written. Sums
and differences write the flag first and the result second, shifts the other way round; the order shows only
when the result goes to VF itself.
-/
namespace Chip8.Registers

def addImmediate (r : Registers) (x nn : UInt8) : Registers :=
  r.set x (r.get x + nn)

def move (r : Registers) (x y : UInt8) : Registers :=
  r.set x (r.get y)

def or (r : Registers) (x y : UInt8) : Registers :=
  r.set x (r.get x ||| r.get y)

def and (r : Registers) (x y : UInt8) : Registers :=
  r.set x (r.get x &&& r.get y)

def xor (r : Registers) (x y : UInt8) : Registers :=
  r.set x (r.get x ^^^ r.get y)

/-- Vx := Vx + Vy, with the carry in the flag. -/
def add (r : Registers) (x y : UInt8) : Registers :=
  let a := r.get x
  let b := r.get y
  (r.setFlag (decide (255 < a.toNat + b.toNat)).toUInt8).set x (a + b)

/-- Vx := Vx - Vy, with the flag set iff Vx was greater. -/
def sub (r : Registers) (x y : UInt8) : Registers :=
  let a := r.get x
  let b := r.get y
  (r.setFlag (decide (b < a)).toUInt8).set x (a - b)

/-- Vx := Vy - Vx, with the flag set iff Vy was greater. -/
def subReversed (r : Registers) (x y : UInt8) : Registers :=
  let a := r.get x
  let b := r.get y
  (r.setFlag (decide (a < b)).toUInt8).set x (b - a)

/-- Halves Vx; the bit that falls off goes to the flag. -/
def shiftRight (r : Registers) (x : UInt8) : Registers :=
  let a := r.get x
  (r.set x (a / 2)).setFlag (a % 2)

/-- Doubles Vx; the bit that falls off goes to the flag. -/
def shiftLeft (r : Registers) (x : UInt8) : Registers :=
  let a := r.get x
  (r.set x (a + a)).setFlag (a / 128)

/-- I := I + Vx, held at the greatest address. The flag is set if the sum lies past the end of memory and
is left alone otherwise. -/
def addIndex (r : Registers) (x : UInt8) : Registers :=
  let sum := r.index.toNat + (r.get x).toNat
  let moved := r.setIndex (UInt16.ofNat (min sum 65535))
  if Memory.size ≤ sum then moved.setFlag 1 else moved

/-- The three decimal digits of Vx, hundreds first. -/
def decimal (r : Registers) (x : UInt8) : List UInt8 :=
  let a := r.get x
  [a / 100, a / 10 % 10, a % 10]

/-- Where the glyph of the low digit of Vx lives. -/
def glyphAddress? (r : Registers) (x : UInt8) : Option Address :=
  Address.plus? (UInt16.ofNat Font.base) (Font.glyphLength * ((r.get x).toNat % 16))

end Chip8.Registers
