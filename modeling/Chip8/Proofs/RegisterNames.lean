import Chip8.Proofs.FlagArithmetic

/-!
# The low digit of a name

An instruction built by hand may name its registers by any byte, but only the low digit of a name counts. All reads and
writes of registers go by it, those of the flag included: an instruction with a name such as 0x1F does what it does with
VF, down to which of result and flag is written last. Fx55 and Fx65 are left out. Their x is a count, and all of it
counts.
-/
namespace Chip8

/-- The instruction with other register names. Bytes, addresses and the length of a sprite are no names. -/
def Instruction.rename (f : UInt8 → UInt8) : Instruction → Instruction
  | clearScreen => clearScreen
  | ret => ret
  | jump nnn => jump nnn
  | call nnn => call nnn
  | skipIfEqual x nn => skipIfEqual (f x) nn
  | skipIfNotEqual x nn => skipIfNotEqual (f x) nn
  | skipIfSame x y => skipIfSame (f x) (f y)
  | load x nn => load (f x) nn
  | add x nn => add (f x) nn
  | move x y => move (f x) (f y)
  | or x y => or (f x) (f y)
  | and x y => and (f x) (f y)
  | xor x y => xor (f x) (f y)
  | addRegister x y => addRegister (f x) (f y)
  | sub x y => sub (f x) (f y)
  | shiftRight x => shiftRight (f x)
  | subReversed x y => subReversed (f x) (f y)
  | shiftLeft x => shiftLeft (f x)
  | skipIfDifferent x y => skipIfDifferent (f x) (f y)
  | loadIndex nnn => loadIndex nnn
  | jumpOffset nnn => jumpOffset nnn
  | random x nn => random (f x) nn
  | draw x y n => draw (f x) (f y) n
  | skipIfKey x => skipIfKey (f x)
  | skipIfNotKey x => skipIfNotKey (f x)
  | readDelay x => readDelay (f x)
  | waitKey x => waitKey (f x)
  | setDelay x => setDelay (f x)
  | setSound x => setSound (f x)
  | addIndex x => addIndex (f x)
  | loadGlyph x => loadGlyph (f x)
  | storeDecimal x => storeDecimal (f x)
  | storeRegisters x => storeRegisters (f x)
  | loadRegisters x => loadRegisters (f x)

namespace Registers

theorem slot_mod (name : UInt8) : slot (name % 16) = slot name :=
  Fin.ext (Nat.mod_mod name.toNat 16)

theorem get_mod (r : Registers) (name : UInt8) : r.get (name % 16) = r.get name := by
  simp only [get, slot_mod]

theorem set_mod (r : Registers) (name value : UInt8) :
    r.set (name % 16) value = r.set name value := by
  simp only [set, slot_mod]

end Registers

namespace Session

open Registers (get_mod set_mod)

/-- An instruction other than Fx55 and Fx65 comes to the same with the low digits of its register names, in every session
and from every address: it ends in the same way and leaves the same machine and the same keypad. -/
theorem names_go_by_low_digit (s : Session) (i : Instruction) (here : Address)
    (h : ∀ x, i ≠ .storeRegisters x ∧ i ≠ .loadRegisters x) :
    s.execute (i.rename (· % 16)) here = s.execute i here := by
  cases i with
  | storeRegisters x => exact absurd rfl (h x).1
  | loadRegisters x => exact absurd rfl (h x).2
  | clearScreen | ret | jump | call | loadIndex | jumpOffset => rfl
  | skipIfEqual | skipIfNotEqual | skipIfSame | skipIfDifferent | skipIfKey | skipIfNotKey
  | setDelay | setSound =>
    simp only [Instruction.rename, execute, get_mod]
  | load | random | readDelay | waitKey => simp only [Instruction.rename, execute, set_mod]
  | add | move | or | and | xor =>
    simp only [Instruction.rename, execute, Registers.addImmediate, Registers.move, Registers.or,
      Registers.and, Registers.xor, get_mod, set_mod]
  -- The flag is written by its own name, before or behind the result: the order is that of the operation.
  | addRegister | sub | subReversed | shiftRight | shiftLeft =>
    simp only [Instruction.rename, execute, Registers.add, Registers.sub, Registers.subReversed,
      Registers.shiftRight, Registers.shiftLeft, get_mod, set_mod]
  | draw | addIndex | loadGlyph | storeDecimal =>
    simp only [Instruction.rename, execute, Registers.addIndex, Registers.glyphAddress?,
      Registers.decimal, get_mod]

/-- 0x1F and 0x2F are VF. Their sum leaves the result in it, and doubling it leaves the bit that falls off. -/
theorem names_go_by_low_digit_on_flag :
    (∀ x, Instruction.addRegister 0x1F 0x2F ≠ .storeRegisters x ∧
      Instruction.addRegister 0x1F 0x2F ≠ .loadRegisters x) ∧
    (∃ t, (uniform 200).execute (.addRegister 0x1F 0x2F) 0x200 = .done t ∧
      t.machine.registers.get 15 = 144) ∧
    ∃ t, (uniform 200).execute (.shiftLeft 0x1F) 0x200 = .done t ∧
      t.machine.registers.get 15 = 1 := by
  have hsum : ∀ x, Instruction.addRegister 0x1F 0x2F ≠ .storeRegisters x ∧
      Instruction.addRegister 0x1F 0x2F ≠ .loadRegisters x := fun _ => ⟨nofun, nofun⟩
  have hdouble : ∀ x, Instruction.shiftLeft 0x1F ≠ .storeRegisters x ∧
      Instruction.shiftLeft 0x1F ≠ .loadRegisters x := fun _ => ⟨nofun, nofun⟩
  refine ⟨hsum, ⟨(uniform 200).setRegisters ((uniform 200).machine.registers.add 15 15), ?_, ?_⟩,
    (uniform 200).setRegisters ((uniform 200).machine.registers.shiftLeft 15), ?_, ?_⟩
  · exact (names_go_by_low_digit (uniform 200) _ 0x200 hsum).symm
  · decide
  · exact (names_go_by_low_digit (uniform 200) _ 0x200 hdouble).symm
  · decide

end Session

end Chip8
