import Chip8.Random.ChaCha

/-!
# Random numbers

A source of random bytes is a key and a position in the stream of words that belongs to it: word `j` is word
`j % 16` of block `j / 16`. A number of 64 bits seeds a key, so that the same numbers can be had again.
-/
namespace Chip8.Random

/-- Word `j` of the stream of a key. -/
def word (key : Key) (j : Nat) : UInt32 :=
  (block key (j / 16)).get ⟨j % 16, Nat.mod_lt _ (by decide)⟩

/-- The byte that word `j` gives, its lowest. -/
def byte (key : Key) (j : Nat) : UInt8 := (word key j).toUInt8

/-- The state of the seed's generator after one more step. -/
def seedStep (s : UInt64) : UInt64 := s * 6364136223846793005 + 11634580027462260723

/-- The key word that a state of the seed's generator gives. -/
def seedWord (s : UInt64) : UInt32 :=
  rotateRight (((s >>> 18) ^^^ s) >>> 27).toUInt32 (s >>> 59).toUInt32

/-- The key of a seed. -/
def keyOf (seed : UInt64) : Key :=
  Vector.ofFn fun k : Fin 8 => seedWord (Nat.repeat seedStep (k.val + 1) seed)

/-- A key and the number of words used so far. -/
structure Source where
  key : Key
  position : Nat
deriving DecidableEq

namespace Source

def ofKey (key : Key) : Source := ⟨key, 0⟩

def ofSeed (seed : UInt64) : Source := ofKey (keyOf seed)

/-- The next byte, and the source one word further. -/
def next (s : Source) : UInt8 × Source :=
  (byte s.key s.position, { s with position := s.position + 1 })

end Source

end Chip8.Random
