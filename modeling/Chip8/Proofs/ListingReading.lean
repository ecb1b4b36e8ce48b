import Chip8.Proofs.Disassembly
import Chip8.Proofs.Listing
import Chip8.Proofs.Numerals

/-!
# Listings can be read

A line of a listing is cut at its blanks. Its second part has two digits if it shows a byte and four if it shows a word,
whether a mnemonic follows or not. So the bytes of an image can be read off its listing, however long it is, and no two
images have the same listing.
-/
namespace Chip8

open Text

namespace Listing

/-- The bytes that a line shows: one if it has two digits for it, and those of a word otherwise. -/
def readLine (line : List Char) : List UInt8 :=
  let digits := (line.splitOn ' ').getD 1 []
  if digits.length = 2 then [UInt8.ofNat (Hex.read digits)]
  else Word.bytes (UInt16.ofNat (Hex.read digits))

/-- Whether a line begins with the numeral of an address, of upper-case digits and three at least, and a colon. -/
def BeginsWith (line : List Char) (address : Nat) : Prop :=
  ∃ digits rest, line = digits ++ ':' :: rest ∧ digits = Hex.padded 3 address ∧
    3 ≤ digits.length ∧ (∀ c ∈ digits, c ∈ Hex.alphabet) ∧ Hex.read digits = address

variable {address k : Nat} {bytes : List UInt8} {w : Word} {line : List Char}

theorem beginsWith_append (address : Nat) (rest : List Char) :
    BeginsWith (Hex.padded 3 address ++ ':' :: rest) address :=
  ⟨_, rest, rfl, rfl, Hex.le_length_padded 3 address, fun _ => Hex.mem_alphabet_of_mem_padded,
    Hex.read_padded 3 address⟩

theorem beginsWith_of_lines (h : (lines address bytes)[k]? = some line) :
    BeginsWith line (address + 2 * k) := by
  fun_induction lines address bytes generalizing k with
  | case1 address => cases h
  | case2 address last =>
    cases k with
    | zero =>
      cases h
      exact beginsWith_append address _
    | succ k => cases h
  | case3 address high low rest ih =>
    cases k with
    | zero =>
      cases h
      rw [Listing.line, List.append_assoc]
      exact beginsWith_append address _
    | succ k =>
      have haddress : address + 2 * (k + 1) = address + 2 + 2 * k := by omega
      rw [haddress]
      exact ih h

/-! ## Reading a line -/

theorem blank_notMem_padded (width n : Nat) : ' ' ∉ Hex.padded width n :=
  Hex.notMem_padded (by decide) width n

theorem splitOn_blank (address : Nat) {digits : List Char} (h : ' ' ∉ digits) :
    (Hex.padded 3 address ++ ':' :: ' ' :: digits).splitOn ' ' =
      [Hex.padded 3 address ++ [':'], digits] := by
  have hcolon : ' ' ∉ Hex.padded 3 address ++ [':'] := by
    simp [blank_notMem_padded]
  rw [List.append_cons, List.splitOn_append_cons_self_of_not_mem hcolon,
    List.splitOn_eq_singleton h]

/-- The digits of a word are the second part of its line, also if the word is no instruction. -/
theorem splitOn_line (address : Nat) (w : Word) : ∃ rest,
    (Listing.line address w).splitOn ' ' =
      (Hex.padded 3 address ++ [':']) :: Hex.padded 4 w.toNat :: rest := by
  have hbare : (bare address w).splitOn ' ' =
      [Hex.padded 3 address ++ [':'], Hex.padded 4 w.toNat] :=
    splitOn_blank address (blank_notMem_padded 4 _)
  cases hd : Instruction.decode w with
  | none =>
    rw [line_of_undecodable hd]
    exact ⟨[], hbare⟩
  | some i =>
    -- The blank before the mnemonic ends the word. What the mnemonic is cut into does not matter.
    rw [line_of_decoded hd, List.splitOn_append_cons_self, hbare]
    exact ⟨_, rfl⟩

theorem readLine_line (address : Nat) (w : Word) : readLine (Listing.line address w) = w.bytes := by
  obtain ⟨rest, hparts⟩ := splitOn_line address w
  have hlength : (Hex.padded 4 w.toNat).length = 4 := Hex.length_padded_of_lt w.toNat_lt
  have hread : UInt16.ofNat (Hex.read (Hex.padded 4 w.toNat)) = w := by
    rw [Hex.read_padded, UInt16.ofNat_toNat]
  have hdigits : ((Listing.line address w).splitOn ' ').getD 1 [] = Hex.padded 4 w.toNat := by
    rw [hparts]
    rfl
  rw [readLine, hdigits, hlength, hread]
  rfl

theorem readLine_lastLine (address : Nat) (b : UInt8) : readLine (lastLine address b) = [b] := by
  have hlength : (Hex.padded 2 b.toNat).length = 2 := Hex.length_padded_of_lt b.toNat_lt
  have hread : UInt8.ofNat (Hex.read (Hex.padded 2 b.toNat)) = b := by
    rw [Hex.read_padded, UInt8.ofNat_toNat]
  have hdigits : ((lastLine address b).splitOn ' ').getD 1 [] = Hex.padded 2 b.toNat := by
    rw [lastLine, splitOn_blank address (blank_notMem_padded 2 _)]
    rfl
  rw [readLine, hdigits, hlength, hread]
  rfl

/-- The line of a word shows two bytes, and that of a byte shows one. -/
theorem line_ne_lastLine (address address' : Nat) (w : Word) (b : UInt8) :
    Listing.line address w ≠ lastLine address' b := by
  intro h
  have hread := congrArg readLine h
  rw [readLine_line, readLine_lastLine] at hread
  cases hread

theorem flatMap_readLine_lines (address : Nat) (bytes : List UInt8) :
    (lines address bytes).flatMap readLine = bytes := by
  fun_induction lines address bytes with
  | case1 address => rfl
  | case2 address last => rw [List.flatMap_singleton, readLine_lastLine]
  | case3 address high low rest ih =>
    rw [List.flatMap_cons, ih, readLine_line, Word.bytes_ofBytes]
    rfl

end Listing

namespace Image

/-- The image that a listing shows. -/
def ofListing (text : String) : Image :=
  ⟨(Lines.split text.toList).flatMap Listing.readLine⟩

theorem ofListing_listing (image : Image) : ofListing image.listing = image := by
  rw [ofListing, split_listing, Listing.flatMap_readLine_lines]

/-- The listing of an image, however long, has a line for each two bytes and one for a last byte, and line `k` begins
with the address `0x200 + 2 * k`. The image is read back from it. In particular the line of a byte is not that of a word,
and the line of a word shows the word whether it is an instruction or not. -/
theorem listing_lossless :
    (∀ image : Image, ∃ lines : List (List Char),
      image.listing.toList = Lines.join lines ∧ (∀ line ∈ lines, '\n' ∉ line) ∧
      lines.length = (image.length + 1) / 2 ∧
      ∀ k line, lines[k]? = some line → Listing.BeginsWith line (0x200 + 2 * k)) ∧
    (∀ image : Image, ofListing image.listing = image) ∧
    (∀ image image' : Image, image.listing = image'.listing ↔ image = image') ∧
    (∀ address address' w b, Listing.line address w ≠ Listing.lastLine address' b) ∧
    ∀ address w, Listing.readLine (Listing.line address w) = w.bytes := by
  refine ⟨fun image => ⟨image.listingLines, ?_, ?_, ?_, ?_⟩, ofListing_listing, ?_,
    Listing.line_ne_lastLine, Listing.readLine_line⟩
  · rw [listing, String.toList_ofList]
  · exact Listing.newline_notMem_lines _ _
  · exact Listing.length_lines _ _
  · exact fun k line h => Listing.beginsWith_of_lines h
  · intro image image'
    refine ⟨fun h => ?_, congrArg listing⟩
    rw [← ofListing_listing image, h, ofListing_listing]

/-- Instructions to the end of memory, and a byte behind them. -/
def pastMemory : Image := ⟨List.replicate 3585 0x60⟩

/-- The last line stands at an address of four digits. -/
theorem listing_lossless_past_memory : ∃ lines rest,
    pastMemory.listing.toList = Lines.join lines ∧ lines.length = 1793 ∧
      lines[1792]? = some ("1000:".toList ++ rest) ∧ '\n' ∉ "1000:".toList ++ rest ∧
      ofListing pastMemory.listing = pastMemory := by
  obtain ⟨hlines, hread, _⟩ := listing_lossless
  obtain ⟨lines, htext, hends, hlength, hbegin⟩ := hlines pastMemory
  have hcount : pastMemory.length = 3585 := List.length_replicate
  rw [hcount] at hlength
  have hlast : lines[1792]? = some lines[1792] := List.getElem?_eq_getElem (by omega)
  obtain ⟨digits, rest, hline, hdigits, _⟩ := hbegin 1792 lines[1792] hlast
  have hnumeral : Hex.padded 3 (0x200 + 2 * 1792) = "1000".toList := by decide +kernel
  have hshown : lines[1792] = "1000:".toList ++ rest := by
    rw [hline, hdigits, hnumeral]
    rfl
  have hend : '\n' ∉ lines[1792] := hends _ (List.getElem_mem _)
  rw [hshown] at hlast hend
  exact ⟨lines, rest, htext, hlength, hlast, hend, hread pastMemory⟩

end Image

end Chip8
