/-!
# Keypads

A keypad has sixteen keys and is asked, time and again, which key is down. What it answers can depend on how
often it was asked before and on nothing else, so it is a sequence of answers and a count of queries.
-/
namespace Chip8

structure Keypad where
  answer : Nat → Option UInt8
  queries : Nat

namespace Keypad

/-- The key that a byte names. Only the low four bits count. -/
def key (k : UInt8) : UInt8 := UInt8.ofNat (k.toNat % 16)

/-- A keypad that nobody touches. -/
def untouched : Keypad := ⟨fun _ => none, 0⟩

/-- A keypad with one key held down. -/
def held (k : UInt8) : Keypad := ⟨fun _ => some (key k), 0⟩

/-- A keypad that answers one entry per query, and no key once the entries are used up. -/
def scripted (entries : List (Option UInt8)) : Keypad :=
  ⟨fun n => (entries[n]?.join).map key, 0⟩

/-- Asks which key is down. -/
def query (k : Keypad) : Option UInt8 × Keypad :=
  (k.answer k.queries, { k with queries := k.queries + 1 })

end Keypad

end Chip8
