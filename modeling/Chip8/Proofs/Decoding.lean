import Chip8.Instruction.Code

/-!
# What a word can decode to

A word has room for three digits of operands, so no decoded instruction has a register operand above fifteen
or an address above 0xFFF, whatever the width of the type that holds it.
-/
namespace Chip8

/-- The digits of a word, read off the number. -/
theorem Word.toNat_nibbles (w : Word) :
    w.nibbles.first.toNat = w.toNat / 4096 ∧ w.nibbles.second.toNat = w.toNat / 256 % 16 ∧
      w.nibbles.third.toNat = w.toNat / 16 % 16 ∧ w.nibbles.fourth.toNat = w.toNat % 16 := by
  have := w.toNat_lt
  simp only [Word.nibbles, UInt8.toNat_ofNat']
  omega

theorem Word.toNat_lowByte (w : Word) :
    (Byte.ofNibbles w.nibbles.third w.nibbles.fourth).toNat = w.toNat % 256 := by
  obtain ⟨_, _, hy, hn⟩ := w.toNat_nibbles
  rw [Byte.toNat_ofNibbles, hy, hn]
  omega

theorem Word.toNat_lowAddress (w : Word) :
    (Address.ofNibbles w.nibbles.second w.nibbles.third w.nibbles.fourth).toNat =
      w.toNat % 4096 := by
  obtain ⟨_, hx, hy, hn⟩ := w.toNat_nibbles
  rw [Address.toNat_ofNibbles, hx, hy, hn]
  omega

namespace Instruction

/-- Whether the operands of an instruction fit the digits that a word has for them. -/
def InRange : Instruction → Prop
  | clearScreen | ret => True
  | jump nnn | call nnn | loadIndex nnn | jumpOffset nnn => nnn.toNat < 4096
  | skipIfSame x y | skipIfDifferent x y | move x y | or x y | and x y | xor x y | addRegister x y
  | sub x y | subReversed x y => x.toNat < 16 ∧ y.toNat < 16
  | draw x y n => x.toNat < 16 ∧ y.toNat < 16 ∧ n.toNat < 16
  | skipIfEqual x _ | skipIfNotEqual x _ | load x _ | add x _ | random x _ | shiftRight x
  | shiftLeft x | skipIfKey x | skipIfNotKey x | readDelay x | waitKey x | setDelay x | setSound x
  | addIndex x | loadGlyph x | storeDecimal x | storeRegisters x | loadRegisters x => x.toNat < 16

variable {w : Word} {i : Instruction}

theorem decode_inRange (h : decode w = some i) : i.InRange := by
  obtain ⟨_, hx, hy, hn⟩ := w.toNat_nibbles
  have hnnn := w.toNat_lowAddress
  have hx' : w.nibbles.second.toNat < 16 := by omega
  have hy' : w.nibbles.third.toNat < 16 := by omega
  have hn' : w.nibbles.fourth.toNat < 16 := by omega
  have ha : (Address.ofNibbles w.nibbles.second w.nibbles.third w.nibbles.fourth).toNat < 4096 := by
    omega
  simp only [decode] at h
  split at h
  all_goals try split at h
  all_goals cases h
  -- Each word of the table has one of these layouts of operands.
  all_goals first
    | exact trivial
    | exact ha
    | exact hx'
    | exact ⟨hx', hy'⟩
    | exact ⟨hx', hy', hn'⟩

theorem decode_eq_ret_iff : decode w = some .ret ↔ w = 0x00EE := by
  constructor
  · intro h
    obtain ⟨ho, _, _, _⟩ := w.toNat_nibbles
    have hnnn := w.toNat_lowAddress
    apply UInt16.toNat_inj.mp
    change w.toNat = 238
    simp only [decode, ho, hnnn] at h
    split at h
    all_goals try split at h
    all_goals cases h
    omega
  · rintro rfl
    decide

end Instruction

end Chip8
