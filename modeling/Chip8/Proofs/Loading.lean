import Chip8.Machine.Basic

/-!
# Loading

An image that fits is put into memory from 0x200 on, and the program counter goes there; one that does not fit changes
nothing. A fresh memory holds the font and zeros.
-/
namespace Chip8

theorem Image.toNat_base : Image.base.toNat = 0x200 := rfl

namespace Memory

variable {m : Memory} {image : Image}

theorem load_of_le (m : Memory) (h : image.length ≤ capacity) :
    m.load image = .ok (m.putAll Image.base.toNat image.bytes) := by
  have hfits : Image.base.toNat + image.bytes.length ≤ size := by
    rw [capacity, Image.toNat_base, size] at h
    rw [Image.toNat_base, size]
    change image.bytes.length ≤ _ at h
    omega
  rw [load, if_neg (Nat.not_lt.mpr h), write_of_le m hfits]

theorem load_of_lt (m : Memory) (h : capacity < image.length) :
    m.load image = .error (.programTooLarge image.length capacity) := by
  rw [load, if_pos h]

theorem byte_fresh (address : Nat) :
    fresh.byte address =
      if 0x50 ≤ address ∧ address < 0xA0 then Font.glyphs.getD (address - 0x50) 0 else 0 := by
  have hblank : (⟨Vector.replicate 4096 0⟩ : Memory).byte address = 0 := by
    simp only [byte, Vector.getElem?_replicate]
    split <;> rfl
  have hlength : Font.glyphs.length = 80 := rfl
  rw [fresh, byte_putAll, hblank, hlength, Font.base, size]
  by_cases h : 0x50 ≤ address ∧ address < 0xA0
  · rw [if_pos h, if_pos (by omega)]
  · rw [if_neg h, if_neg (by omega)]

end Memory

namespace Machine

variable {image : Image}

theorem load_of_le (m : Machine) (h : image.length ≤ Memory.capacity) :
    m.load image = .done { m with
      memory := m.memory.putAll Image.base.toNat image.bytes
      pc := Image.base } := by
  rw [load, Memory.load_of_le m.memory h]

theorem load_of_lt (m : Machine) (h : Memory.capacity < image.length) :
    m.load image = .faulted (.programTooLarge image.length Memory.capacity) m := by
  rw [load, Memory.load_of_lt m.memory h]

/-- Loading writes to memory and to the program counter, and to nothing if the image does not fit. -/
theorem load_state_cases (m : Machine) (image : Image) :
    (m.load image).state = m ∨
      ∃ memory, (m.load image).state = { m with memory := memory, pc := Image.base } := by
  by_cases h : image.length ≤ Memory.capacity
  · rw [load_of_le m h]
    exact Or.inr ⟨_, rfl⟩
  · rw [load_of_lt m (Nat.lt_of_not_le h)]
    exact Or.inl rfl

end Machine

end Chip8
