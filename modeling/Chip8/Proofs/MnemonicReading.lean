import Chip8.Instruction.Code
import Chip8.Instruction.Mnemonic
import Chip8.Proofs.Numerals

/-!
# Mnemonics can be read

The text of an instruction is a name and operands with blanks and commas between them, of which neither a name nor an
operand holds any. So the text can be cut into its parts again, each operand is known by its text, and the name with the
kinds of the operands tells the instruction. No two instructions have the same text, whatever their operands are.
-/
namespace Chip8

open Text

namespace Operand

/-- The characters of operands that are no count. -/
def alphabet : List Char := Hex.alphabet ++ "VxI[]TSK".toList

/-- The operand of a text. A hexadecimal number of two digits is a byte, a longer one an address. -/
def read? (text : List Char) : Option Operand :=
  -- A count is all digits. A hexadecimal number has its x.
  if text.all Char.isDigit then some (count (UInt8.ofNat (Nat.ofDigitChars 10 text 0)))
  else
    match text with
    | 'V' :: digits => some (register (UInt8.ofNat (Hex.read digits)))
    | '0' :: 'x' :: digits =>
      if digits.length = 2 then some (byte (UInt8.ofNat (Hex.read digits)))
      else some (address (UInt16.ofNat (Hex.read digits)))
    | ['I'] => some index
    | ['[', 'I', ']'] => some indirect
    | ['D', 'T'] => some delay
    | ['S', 'T'] => some sound
    | ['K'] => some key
    | ['F'] => some glyph
    | ['B'] => some decimal
    | _ => none

theorem read?_chars (o : Operand) : read? o.chars = some o := by
  cases o with
  | register x =>
    have hread : UInt8.ofNat (Hex.read (Hex.digits x.toNat)) = x := by
      rw [Hex.read_digits, UInt8.ofNat_toNat]
    exact congrArg (fun x => some (register x)) hread
  | byte nn =>
    have hlength : (Hex.padded 2 nn.toNat).length = 2 := Hex.length_padded_of_lt nn.toNat_lt
    have hread : UInt8.ofNat (Hex.read (Hex.padded 2 nn.toNat)) = nn := by
      rw [Hex.read_padded, UInt8.ofNat_toNat]
    rw [chars, read?, if_neg (by simp), if_pos hlength, hread]
  | address nnn =>
    have hlength : (Hex.padded 3 nnn.toNat).length ≠ 2 := by
      have hle := Hex.le_length_padded 3 nnn.toNat
      omega
    have hread : UInt16.ofNat (Hex.read (Hex.padded 3 nnn.toNat)) = nnn := by
      rw [Hex.read_padded, UInt16.ofNat_toNat]
    rw [chars, read?, if_neg (by simp), if_neg hlength, hread]
  | count n =>
    have hdigits : (Nat.toDigits 10 n.toNat).all Char.isDigit = true := by
      rw [List.all_eq_true]
      exact fun c hc => Nat.isDigit_of_mem_toDigits (by decide) (by decide) hc
    have hread : UInt8.ofNat (Nat.ofDigitChars 10 (Nat.toDigits 10 n.toNat) 0) = n := by
      rw [Nat.ofDigitChars_ten_toDigits, UInt8.ofNat_toNat]
    exact (if_pos hdigits).trans (congrArg (fun n => some (count n)) hread)
  | index | indirect | delay | sound | key | glyph | decimal => rfl

theorem mem_alphabet_of_all {word : List Char} {c : Char} (hword : word.all alphabet.contains = true)
    (h : c ∈ word) : c ∈ alphabet :=
  List.contains_iff_mem.mp (List.all_eq_true.mp hword c h)

theorem isDigit_or_mem_alphabet {o : Operand} {c : Char} (h : c ∈ o.chars) :
    c.isDigit = true ∨ c ∈ alphabet := by
  cases o with
  | register x =>
    rcases List.mem_cons.mp h with rfl | h
    · exact Or.inr (by decide)
    · exact Or.inr (List.mem_append_left _ (Hex.mem_alphabet_of_mem_digits h))
  | byte nn | address nnn =>
    rcases List.mem_cons.mp h with rfl | h
    · exact Or.inr (by decide)
    · rcases List.mem_cons.mp h with rfl | h
      · exact Or.inr (by decide)
      · exact Or.inr (List.mem_append_left _ (Hex.mem_alphabet_of_mem_padded h))
  | count n => exact Or.inl (Nat.isDigit_of_mem_toDigits (by decide) (by decide) h)
  | index | indirect | delay | sound | key | glyph | decimal =>
    exact Or.inr (mem_alphabet_of_all (by decide) h)

/-- Other characters, as the blank and the comma between operands, are in no operand. -/
theorem notMem_chars {c : Char} (hdigit : c.isDigit = false) (hc : c ∉ alphabet) (o : Operand) :
    c ∉ o.chars := by
  intro h
  rcases isDigit_or_mem_alphabet h with hd | hmem
  · rw [hdigit] at hd
    cases hd
  · exact hc hmem

end Operand

namespace Mnemonic

/-- The parts of a text: its commas are dropped, and it is cut at its blanks. -/
def parts (text : List Char) : List (List Char) := (text.filter (· != ',')).splitOn ' '

/-- The mnemonic of a text. -/
def read? (text : List Char) : Option Mnemonic :=
  match parts text with
  | [] => none
  | name :: operands => (operands.mapM Operand.read?).map fun operands => ⟨String.ofList name, operands⟩

open Operand Instruction in
/-- The instruction of a mnemonic. -/
def instruction? : Mnemonic → Option Instruction
  | ⟨"CLS", []⟩ => some clearScreen
  | ⟨"RET", []⟩ => some ret
  | ⟨"JP", [address nnn]⟩ => some (jump nnn)
  | ⟨"CALL", [address nnn]⟩ => some (call nnn)
  | ⟨"SE", [register x, byte nn]⟩ => some (skipIfEqual x nn)
  | ⟨"SNE", [register x, byte nn]⟩ => some (skipIfNotEqual x nn)
  | ⟨"SE", [register x, register y]⟩ => some (skipIfSame x y)
  | ⟨"LD", [register x, byte nn]⟩ => some (load x nn)
  | ⟨"ADD", [register x, byte nn]⟩ => some (add x nn)
  | ⟨"LD", [register x, register y]⟩ => some (move x y)
  | ⟨"OR", [register x, register y]⟩ => some (or x y)
  | ⟨"AND", [register x, register y]⟩ => some (and x y)
  | ⟨"XOR", [register x, register y]⟩ => some (xor x y)
  | ⟨"ADD", [register x, register y]⟩ => some (addRegister x y)
  | ⟨"SUB", [register x, register y]⟩ => some (sub x y)
  | ⟨"SHR", [register x]⟩ => some (shiftRight x)
  | ⟨"SUBN", [register x, register y]⟩ => some (subReversed x y)
  | ⟨"SHL", [register x]⟩ => some (shiftLeft x)
  | ⟨"SNE", [register x, register y]⟩ => some (skipIfDifferent x y)
  | ⟨"LD", [index, address nnn]⟩ => some (loadIndex nnn)
  | ⟨"JP", [register 0, address nnn]⟩ => some (jumpOffset nnn)
  | ⟨"RND", [register x, byte nn]⟩ => some (random x nn)
  | ⟨"DRW", [register x, register y, count n]⟩ => some (draw x y n)
  | ⟨"SKP", [register x]⟩ => some (skipIfKey x)
  | ⟨"SKNP", [register x]⟩ => some (skipIfNotKey x)
  | ⟨"LD", [register x, delay]⟩ => some (readDelay x)
  | ⟨"LD", [register x, key]⟩ => some (waitKey x)
  | ⟨"LD", [delay, register x]⟩ => some (setDelay x)
  | ⟨"LD", [sound, register x]⟩ => some (setSound x)
  | ⟨"ADD", [index, register x]⟩ => some (addIndex x)
  | ⟨"LD", [glyph, register x]⟩ => some (loadGlyph x)
  | ⟨"LD", [decimal, register x]⟩ => some (storeDecimal x)
  | ⟨"LD", [indirect, register x]⟩ => some (storeRegisters x)
  | ⟨"LD", [register x, indirect]⟩ => some (loadRegisters x)
  | _ => none

variable {m : Mnemonic}

theorem filter_eq_self {text : List Char} (h : ',' ∉ text) : text.filter (· != ',') = text := by
  rw [List.filter_eq_self]
  intro c hc
  have hne : c ≠ ',' := ne_of_mem_of_not_mem hc h
  simpa using hne

/-- Without its commas a text is its name and its operands, each with a blank before it. -/
theorem filter_chars (hname : ',' ∉ m.name.toList) :
    m.chars.filter (· != ',') = m.name.toList ++ m.operands.flatMap fun o => ' ' :: o.chars := by
  have hoperand : ∀ o : Operand, o.chars.filter (· != ',') = o.chars := fun o =>
    filter_eq_self (o.notMem_chars (by decide) (by decide))
  rw [chars]
  cases m.operands with
  | nil => simp [filter_eq_self hname]
  | cons first rest =>
    simp [List.filter_append, filter_eq_self hname, hoperand, List.filter_flatMap]

theorem splitOn_operands {name : List Char} (hname : ' ' ∉ name) (operands : List Operand) :
    (name ++ operands.flatMap fun o => ' ' :: o.chars).splitOn ' ' =
      name :: operands.map Operand.chars := by
  induction operands generalizing name with
  | nil => simpa using List.splitOn_eq_singleton hname
  | cons o rest ih =>
    have hrest := ih (o.notMem_chars (by decide) (by decide))
    rw [List.flatMap_cons, List.cons_append, List.splitOn_append_cons_self_of_not_mem hname, hrest]
    rfl

theorem mapM_read?_chars (operands : List Operand) :
    (operands.map Operand.chars).mapM Operand.read? = some operands := by
  induction operands with
  | nil => rfl
  | cons o rest ih => simp [Operand.read?_chars, ih]

/-- A mnemonic is read back from its text if its name holds no separator. -/
theorem read?_chars (hblank : ' ' ∉ m.name.toList) (hcomma : ',' ∉ m.name.toList) :
    read? m.chars = some m := by
  have hparts : parts m.chars = m.name.toList :: m.operands.map Operand.chars := by
    rw [parts, filter_chars hcomma, splitOn_operands hblank]
  simp only [read?, hparts, mapM_read?_chars, Option.map_some, String.ofList_toList]

end Mnemonic

namespace Instruction

/-- The instruction of a text. -/
def ofText? (text : String) : Option Instruction :=
  (Mnemonic.read? text.toList).bind Mnemonic.instruction?

theorem instruction?_mnemonic (i : Instruction) : i.mnemonic.instruction? = some i := by
  cases i <;> rfl

theorem separator_notMem_name (i : Instruction) :
    ' ' ∉ i.mnemonic.name.toList ∧ ',' ∉ i.mnemonic.name.toList := by
  cases i <;> simp [mnemonic]

theorem ofText?_text (i : Instruction) : ofText? i.text = some i := by
  obtain ⟨hblank, hcomma⟩ := i.separator_notMem_name
  rw [ofText?, text, String.toList_ofList, Mnemonic.read?_chars hblank hcomma]
  exact i.instruction?_mnemonic

theorem text_injective {i j : Instruction} (h : i.text = j.text) : i = j := by
  have hi := i.ofText?_text
  rw [h, j.ofText?_text] at hi
  exact (Option.some.inj hi).symm

/-- The text of an instruction, built by hand or decoded, tells the instruction and its operands; and two words have the
same text, or both none, iff they decode alike. -/
theorem mnemonics_unambiguous :
    (∀ i j : Instruction, i.text = j.text ↔ i = j) ∧
    ∀ w w' : Word, (decode w).map text = (decode w').map text ↔ decode w = decode w' := by
  constructor
  · exact fun i j => ⟨text_injective, congrArg text⟩
  · exact fun w w' =>
      ⟨fun h => Option.map_injective (fun _ _ => text_injective) h, congrArg (Option.map text)⟩

end Instruction

end Chip8
