import Chip8.Fault
import Chip8.Image.Basic
import Chip8.Memory.Font

/-!
# Memory

Memory is 4096 bytes at the addresses below 4096. Nothing wraps around: an access that reaches past the
last byte is refused as a whole, before a byte is touched, and so is one whose end 64 bits cannot hold. `byte` is the
view of a memory: each operation is described by what it does to every byte.
-/
namespace Chip8

/-- A refused access. `address` is the first byte of it that does not exist. -/
structure OutOfBounds where
  address : Nat
deriving DecidableEq, Repr

/-- The fault of an instruction that made a refused access. -/
def OutOfBounds.fault (e : OutOfBounds) (pc : Address) : Fault :=
  .addressOutOfBounds e.address pc

structure Memory where
  cells : Vector UInt8 4096
deriving DecidableEq

namespace Memory

abbrev size : Nat := 4096

/-- The byte at an address, zero where there is none. -/
def byte (m : Memory) (address : Nat) : UInt8 :=
  m.cells[address]?.getD 0

def put (m : Memory) (address : Nat) (value : UInt8) : Memory :=
  ⟨m.cells.setIfInBounds address value⟩

/-- Puts bytes one after the other, as far as they fall into memory. -/
def putAll (m : Memory) (address : Nat) : List UInt8 → Memory
  | [] => m
  | value :: rest => (m.put address value).putAll (address + 1) rest

/-- The address behind an access, if 64 bits can hold it. -/
def behind? (address length : Nat) : Option Nat :=
  if address + length < UInt64.size then some (address + length) else none

/-- Refuses an access that reaches past the last byte. -/
def check (address length : Nat) : Except OutOfBounds Unit :=
  match behind? address length with
  | some behind => if behind ≤ size then .ok () else .error ⟨max address size⟩
  | none => .error ⟨max address size⟩

/-- `length` bytes from an address on. -/
def read (m : Memory) (address length : Nat) : Except OutOfBounds (List UInt8) :=
  match check address length with
  | .ok _ => .ok ((List.range length).map fun j => m.byte (address + j))
  | .error e => .error e

/-- Puts `data` into memory from an address on. -/
def write (m : Memory) (address : Nat) (data : List UInt8) : Except OutOfBounds Memory :=
  match check address data.length with
  | .ok _ => .ok (m.putAll address data)
  | .error e => .error e

/-- The word at an address. -/
def word (m : Memory) (address : Nat) : Except OutOfBounds Word :=
  match check address 2 with
  | .ok _ => .ok (Word.ofBytes (m.byte address) (m.byte (address + 1)))
  | .error e => .error e

/-- A fresh memory: the font in place and zeros elsewhere. -/
def fresh : Memory :=
  putAll ⟨Vector.replicate 4096 0⟩ Font.base Font.glyphs

/-- The bytes from where images are loaded to the end. -/
def capacity : Nat := size - Image.base.toNat

/-- Copies an image into memory. An image that does not fit is refused. -/
def load (m : Memory) (image : Image) : Except Fault Memory :=
  if capacity < image.length then .error (.programTooLarge image.length capacity)
  else
    match m.write Image.base.toNat image.bytes with
    | .ok loaded => .ok loaded
    | .error e => .error (e.fault Image.base)

theorem byte_put (m : Memory) (address here : Nat) (value : UInt8) :
    (m.put address value).byte here
      = if here = address ∧ address < size then value else m.byte here := by
  unfold byte put
  rw [Vector.getElem?_setIfInBounds]
  by_cases same : address = here
  · subst same
    by_cases inside : address < 4096
    · rw [if_pos rfl, if_pos inside, if_pos ⟨rfl, inside⟩]
      rfl
    · rw [if_pos rfl, if_neg inside, if_neg (fun both => inside both.2)]
      simp [inside]
  · rw [if_neg same, if_neg (fun both => same both.1.symm)]

theorem byte_putAll (m : Memory) (address here : Nat) (data : List UInt8) :
    (m.putAll address data).byte here
      = if address ≤ here ∧ here < address + data.length ∧ here < size
        then data.getD (here - address) 0 else m.byte here := by
  induction data generalizing m address with
  | nil =>
    rw [if_neg (by simp only [List.length_nil]; omega)]
    rfl
  | cons value rest ih =>
    rw [putAll, ih, byte_put]
    simp only [List.length_cons]
    by_cases first : here = address
    · subst first
      by_cases inside : here < size
      · rw [if_neg (by omega), if_pos ⟨rfl, inside⟩, if_pos (by omega)]
        simp
      · rw [if_neg (by omega), if_neg (by omega), if_neg (by omega)]
    · by_cases later : address + 1 ≤ here ∧ here < address + 1 + rest.length ∧ here < size
      · rw [if_pos later, if_pos (by omega), show here - address = here - (address + 1) + 1 by omega]
        simp
      · rw [if_neg later, if_neg (by omega), if_neg (by omega)]

/-- The sum of an address and a length decides on an access. One that 64 bits cannot hold is past the end anyway. -/
theorem check_eq (address length : Nat) :
    check address length =
      if address + length ≤ size then .ok () else .error ⟨max address size⟩ := by
  unfold check behind?
  by_cases hsum : address + length < UInt64.size
  · rw [if_pos hsum]
  · have hsize : size < UInt64.size := by decide
    rw [if_neg hsum, if_neg (by omega)]

theorem check_of_le {address length : Nat} (h : address + length ≤ size) :
    check address length = .ok () := (check_eq address length).trans (if_pos h)

theorem check_of_lt {address length : Nat} (h : size < address + length) :
    check address length = .error ⟨max address size⟩ :=
  (check_eq address length).trans (if_neg (Nat.not_le.mpr h))

/-- A read that fits brings the bytes of its interval, one that does not brings nothing. -/
theorem read_of_le (m : Memory) {address length : Nat} (h : address + length ≤ size) :
    m.read address length = .ok ((List.range length).map fun j => m.byte (address + j)) := by
  rw [read, check_of_le h]

theorem read_of_lt (m : Memory) {address length : Nat} (h : size < address + length) :
    m.read address length = .error ⟨max address size⟩ := by
  rw [read, check_of_lt h]

theorem write_of_le (m : Memory) {address : Nat} {data : List UInt8}
    (h : address + data.length ≤ size) : m.write address data = .ok (m.putAll address data) := by
  rw [write, check_of_le h]

theorem write_of_lt (m : Memory) {address : Nat} {data : List UInt8}
    (h : size < address + data.length) : m.write address data = .error ⟨max address size⟩ := by
  rw [write, check_of_lt h]

theorem word_of_le (m : Memory) {address : Nat} (h : address + 2 ≤ size) :
    m.word address = .ok (Word.ofBytes (m.byte address) (m.byte (address + 1))) := by
  rw [word, check_of_le h]

theorem word_of_lt (m : Memory) {address : Nat} (h : size < address + 2) :
    m.word address = .error ⟨max address size⟩ := by
  rw [word, check_of_lt h]

theorem ext_byte {m m' : Memory} (h : ∀ a < size, m.byte a = m'.byte a) : m = m' := by
  obtain ⟨cells⟩ := m
  obtain ⟨cells'⟩ := m'
  congr 1
  apply Vector.ext
  intro i hi
  simpa [byte, hi] using h i hi

end Memory

end Chip8
