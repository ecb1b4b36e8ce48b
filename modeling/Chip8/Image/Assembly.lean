import Chip8.Image.Basic
import Chip8.Instruction.Code

/-!
# Assembling and disassembling

A list of instructions assembles to the image that holds their words one after the other. An image
disassembles if it is a whole number of words and each of them is an instruction.
-/
namespace Chip8

/-- The words of a list of bytes, two bytes each, if none is left over. -/
def Word.ofByteList? : List UInt8 → Option (List Word)
  | [] => some []
  | [_] => none
  | high :: low :: rest => (ofByteList? rest).map (Word.ofBytes high low :: ·)

namespace Image

def assemble (program : List Instruction) : Image :=
  ⟨program.flatMap fun i => i.encode.bytes⟩

def disassemble? (image : Image) : Option (List Instruction) :=
  (Word.ofByteList? image.bytes).bind fun words => words.mapM Instruction.decode

end Image

theorem Word.ofBytes_bytes (w : Word) (rest : List UInt8) :
    Word.ofByteList? (w.bytes ++ rest) = (Word.ofByteList? rest).map (w :: ·) := by
  have := w.toNat_lt
  have joined : Word.ofBytes (UInt8.ofNat (w.toNat / 256)) (UInt8.ofNat (w.toNat % 256)) = w := by
    apply UInt16.toNat_inj.1
    simp only [Word.toNat_ofBytes, UInt8.toNat_ofNat']
    omega
  simp [Word.bytes, Word.ofByteList?, joined]

/-- The words of an assembled program are the codes of its instructions. -/
theorem Image.ofByteList?_assemble (program : List Instruction) :
    Word.ofByteList? (assemble program).bytes = some (program.map Instruction.encode) := by
  induction program with
  | nil => rfl
  | cons i rest ih =>
    simp only [assemble, List.flatMap_cons, List.map_cons] at ih ⊢
    rw [Word.ofBytes_bytes, ih]
    rfl

end Chip8
