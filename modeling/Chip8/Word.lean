/-!
# Words, bytes and nibbles

A word is sixteen bits, written most significant part first. It cuts into four nibbles and joins from
two bytes; nibbles join into bytes and twelve-bit addresses. Everything is defined through natural
numbers, so that the laws below are arithmetic.
-/
namespace Chip8

abbrev Word := UInt16

abbrev Address := UInt16

/-- The four nibbles of a word, most significant first. -/
structure Nibbles where
  first : UInt8
  second : UInt8
  third : UInt8
  fourth : UInt8
deriving DecidableEq, Repr

def Nibbles.toList (q : Nibbles) : List UInt8 := [q.first, q.second, q.third, q.fourth]

def Word.nibbles (w : Word) : Nibbles where
  first := UInt8.ofNat (w.toNat / 4096)
  second := UInt8.ofNat (w.toNat / 256 % 16)
  third := UInt8.ofNat (w.toNat / 16 % 16)
  fourth := UInt8.ofNat (w.toNat % 16)

/-- Joins two bytes, the first being the most significant. -/
def Word.ofBytes (high low : UInt8) : Word :=
  UInt16.ofNat (256 * high.toNat + low.toNat)

/-- Joins four nibbles. Only the low four bits of each count. -/
def Word.ofNibbles (q : Nibbles) : Word :=
  UInt16.ofNat (4096 * (q.first.toNat % 16) + 256 * (q.second.toNat % 16)
    + 16 * (q.third.toNat % 16) + q.fourth.toNat % 16)

/-- The bytes of a word, most significant first. -/
def Word.bytes (w : Word) : List UInt8 :=
  [UInt8.ofNat (w.toNat / 256), UInt8.ofNat (w.toNat % 256)]

/-- Joins two nibbles. Only the low four bits of each count. -/
def Byte.ofNibbles (high low : UInt8) : UInt8 :=
  UInt8.ofNat (16 * (high.toNat % 16) + low.toNat % 16)

/-- Joins three nibbles to a twelve-bit address. Only the low four bits of each count. -/
def Address.ofNibbles (high middle low : UInt8) : Address :=
  UInt16.ofNat (256 * (high.toNat % 16) + 16 * (middle.toNat % 16) + low.toNat % 16)

/-- The sum of an address and an offset, if it still is an address. -/
def Address.plus? (a : Address) (offset : Nat) : Option Address :=
  if a.toNat + offset < 65536 then some (UInt16.ofNat (a.toNat + offset)) else none

theorem Word.toNat_ofBytes (high low : UInt8) :
    (Word.ofBytes high low).toNat = 256 * high.toNat + low.toNat := by
  have := high.toNat_lt
  have := low.toNat_lt
  simp only [Word.ofBytes, UInt16.toNat_ofNat']
  omega

theorem Word.ofNibbles_nibbles (w : Word) : Word.ofNibbles w.nibbles = w := by
  have := w.toNat_lt
  apply UInt16.toNat_inj.1
  simp only [Word.ofNibbles, Word.nibbles, UInt16.toNat_ofNat', UInt8.toNat_ofNat']
  omega

theorem Byte.toNat_ofNibbles (high low : UInt8) :
    (Byte.ofNibbles high low).toNat = 16 * (high.toNat % 16) + low.toNat % 16 := by
  simp only [Byte.ofNibbles, UInt8.toNat_ofNat']
  omega

theorem Address.toNat_ofNibbles (high middle low : UInt8) :
    (Address.ofNibbles high middle low).toNat
      = 256 * (high.toNat % 16) + 16 * (middle.toNat % 16) + low.toNat % 16 := by
  simp only [Address.ofNibbles, UInt16.toNat_ofNat']
  omega

theorem Address.plus?_eq_some_iff {a b : Address} {offset : Nat} :
    a.plus? offset = some b ↔ a.toNat + offset = b.toNat := by
  have := b.toNat_lt
  unfold Address.plus?
  split
  · rename_i h
    simp only [Option.some.injEq, ← UInt16.toNat_inj, UInt16.toNat_ofNat']
    omega
  · simp
    omega

end Chip8
