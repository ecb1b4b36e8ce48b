import Chip8.Image.Basic
import Chip8.Instruction.Code
import Chip8.Instruction.Mnemonic
import Chip8.Text.Lines

/-!
# Listings

The listing of an image has a line per word: the address that the word has once it is loaded, the word,
and the mnemonic if the word is an instruction. An odd last byte has a line of its own.
-/
namespace Chip8

/-- The line of a word: its address, its digits, and its mnemonic if it is an instruction. -/
def Listing.line (address : Nat) (w : Word) : List Char :=
  Text.Hex.padded 3 address ++ ':' :: ' ' :: Text.Hex.padded 4 w.toNat ++
    match Instruction.decode w with
    | some i => ' ' :: ' ' :: i.mnemonic.chars
    | none => []

/-- The line of a byte without a partner. -/
def Listing.lastLine (address : Nat) (b : UInt8) : List Char :=
  Text.Hex.padded 3 address ++ ':' :: ' ' :: Text.Hex.padded 2 b.toNat

/-- The lines of bytes that start at an address. -/
def Listing.lines (address : Nat) : List UInt8 → List (List Char)
  | [] => []
  | [last] => [lastLine address last]
  | high :: low :: rest => line address (Word.ofBytes high low) :: lines (address + 2) rest

namespace Image

def listingLines (image : Image) : List (List Char) :=
  Listing.lines base.toNat image.bytes

def listing (image : Image) : String :=
  String.ofList (Text.Lines.join image.listingLines)

end Image

end Chip8
