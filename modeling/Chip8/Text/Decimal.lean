/-!
# Reading decimal numerals

A numeral is one or more decimal digits with an optional plus sign before them. A signed numeral may have a
minus sign instead. Leading zeros count for nothing.
-/
namespace Chip8.Text.Decimal

/-- The number of a run of digits, or `none` if a character is no digit. -/
def readDigits (n : Nat) : List Char → Option Nat
  | [] => some n
  | c :: rest => if c.isDigit then readDigits (10 * n + (c.toNat - 48)) rest else none

/-- The number of one or more digits. -/
def readUnsigned? : List Char → Option Nat
  | [] => none
  | c :: rest => readDigits 0 (c :: rest)

/-- The number of a numeral without a minus sign. -/
def readNat? : List Char → Option Nat
  | '+' :: rest => readUnsigned? rest
  | cs => readUnsigned? cs

/-- The number of a numeral with or without a sign. -/
def readInt? : List Char → Option Int
  | '-' :: rest => (readUnsigned? rest).map fun n => -(n : Int)
  | cs => (readNat? cs).map fun n => (n : Int)

end Chip8.Text.Decimal
