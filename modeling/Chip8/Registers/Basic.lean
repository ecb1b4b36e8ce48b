import Chip8.Word

/-!
# Registers

Sixteen byte registers V0 to VF, of which VF doubles as the flag, and the index register I. A register is
named by a byte of which only the low four bits count, so every name is valid. I keeps all its sixteen bits,
also when they point past the end of memory.
-/
namespace Chip8

structure Registers where
  v : Vector UInt8 16
  index : Address
deriving DecidableEq

namespace Registers

/-- The register that a byte names. -/
def slot (name : UInt8) : Fin 16 := ⟨name.toNat % 16, Nat.mod_lt _ (by decide)⟩

def fresh : Registers := ⟨Vector.replicate 16 0, 0⟩

def get (r : Registers) (name : UInt8) : UInt8 := r.v[slot name]

def set (r : Registers) (name value : UInt8) : Registers :=
  { r with v := r.v.set (slot name) value }

/-- The flag register VF. -/
def flag (r : Registers) : UInt8 := r.get 0xF

def setFlag (r : Registers) (value : UInt8) : Registers := r.set 0xF value

def setIndex (r : Registers) (value : Address) : Registers := { r with index := value }

/-- All registers, V0 first. -/
def toList (r : Registers) : List UInt8 := r.v.toList

/-- The registers V0 to Vx, if there are that many. -/
def upTo? (r : Registers) (x : UInt8) : Option (List UInt8) :=
  if x.toNat < 16 then some (r.toList.take (x.toNat + 1)) else none

/-- Sets registers one after the other to values, starting with the one that `name` names. -/
def setAll (r : Registers) (name : Nat) : List UInt8 → Registers
  | [] => r
  | value :: rest => (r.set (UInt8.ofNat name) value).setAll (name + 1) rest

theorem slot_eq_iff {a b : UInt8} : slot a = slot b ↔ a.toNat % 16 = b.toNat % 16 :=
  Fin.ext_iff

theorem get_congr {r : Registers} {a b : UInt8} (h : a.toNat % 16 = b.toNat % 16) :
    r.get a = r.get b :=
  congrArg (fun i : Fin 16 => r.v[i]) (slot_eq_iff.mpr h)

theorem get_set (r : Registers) (a b value : UInt8) :
    (r.set a value).get b = if slot b = slot a then value else r.get b := by
  simp only [get, set, Fin.getElem_fin, Vector.getElem_set]
  by_cases h : slot b = slot a
  · simp [h]
  · rw [if_neg h, if_neg (fun equal => h (Fin.ext equal.symm))]

theorem index_set (r : Registers) (name value : UInt8) : (r.set name value).index = r.index := rfl

/-- The registers `r'` are `r`, but for the one that `name` names, which holds `value`. Names count by their low digit. -/
structure Takes (r : Registers) (name value : UInt8) (r' : Registers) : Prop where
  taken : r'.get name = value
  others : ∀ other : UInt8, other.toNat % 16 ≠ name.toNat % 16 → r'.get other = r.get other
  index : r'.index = r.index

theorem takes_set (r : Registers) (name value : UInt8) : r.Takes name value (r.set name value) where
  taken := by rw [get_set, if_pos rfl]
  others other hother := by rw [get_set, if_neg fun hslot => hother (slot_eq_iff.mp hslot)]
  index := r.index_set name value

theorem flag_setFlag (r : Registers) (value : UInt8) : (r.setFlag value).flag = value :=
  (r.takes_set 0xF value).taken

theorem get_setFlag_of_lt (r : Registers) {name : UInt8} (value : UInt8) (h : name.toNat < 15) :
    (r.setFlag value).get name = r.get name := by
  have hname : name.toNat % 16 ≠ 15 := by omega
  exact (r.takes_set 0xF value).others name hname

theorem get_setIndex (r : Registers) (value : Address) (name : UInt8) :
    (r.setIndex value).get name = r.get name := rfl

end Registers

end Chip8
