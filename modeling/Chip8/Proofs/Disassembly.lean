import Chip8.Proofs.Encoding

/-!
# Assembling and disassembling

Decoding forgets the third digit of the words 8xy6 and 8xyE, and nothing else. So assembling the disassembly of an image
gives the image back with that digit cleared, and a word is an instruction iff it is the code of one once the digit is
cleared.
-/
namespace Chip8

namespace Word

/-- Whether a word is 8xy6 or 8xyE, whose third digit means nothing. -/
def IsShift (w : Word) : Prop :=
  w.nibbles.first = 0x8 ∧ (w.nibbles.fourth = 0x6 ∨ w.nibbles.fourth = 0xE)

instance (w : Word) : Decidable w.IsShift := inferInstanceAs (Decidable (_ ∧ _))

/-- The word with the digit that means nothing cleared. -/
def plain (w : Word) : Word :=
  if w.IsShift then ofNibbles ⟨w.nibbles.first, w.nibbles.second, 0x0, w.nibbles.fourth⟩ else w

/-- Two words 8xy6, or two words 8xyE, with the same x. -/
def Twins (w w' : Word) : Prop :=
  w.IsShift ∧ w'.IsShift ∧ w.nibbles.second = w'.nibbles.second ∧
    w.nibbles.fourth = w'.nibbles.fourth

variable {w w' : Word}

theorem plain_of_isShift (h : w.IsShift) :
    w.plain = ofNibbles ⟨w.nibbles.first, w.nibbles.second, 0x0, w.nibbles.fourth⟩ := if_pos h

theorem plain_of_not_isShift (h : ¬ w.IsShift) : w.plain = w := if_neg h

theorem nibbles_plain_of_isShift (h : w.IsShift) :
    w.plain.nibbles = ⟨w.nibbles.first, w.nibbles.second, 0x0, w.nibbles.fourth⟩ := by
  obtain ⟨hf, hx, _, hn⟩ := w.toNat_nibbles
  have hw := w.toNat_lt
  rw [plain_of_isShift h]
  exact nibbles_ofNibbles (by omega) (by omega) (by decide) (by omega)

theorem isShift_plain_iff : w.plain.IsShift ↔ w.IsShift := by
  by_cases h : w.IsShift
  · refine iff_of_true ?_ h
    rw [IsShift, nibbles_plain_of_isShift h]
    exact h
  · rw [plain_of_not_isShift h]

/-- Clearing the digit makes equal those words that differ in it alone. -/
theorem plain_eq_plain_iff : w.plain = w'.plain ↔ w = w' ∨ w.Twins w' := by
  constructor
  · intro h
    have hshift : w.IsShift ↔ w'.IsShift := by
      rw [← isShift_plain_iff, h, isShift_plain_iff]
    by_cases hw : w.IsShift
    · have hw' := hshift.mp hw
      have hnibbles := congrArg nibbles h
      rw [nibbles_plain_of_isShift hw, nibbles_plain_of_isShift hw', Nibbles.mk.injEq] at hnibbles
      exact Or.inr ⟨hw, hw', hnibbles.2.1, hnibbles.2.2.2⟩
    · have hw' : ¬ w'.IsShift := fun h' => hw (hshift.mpr h')
      rw [plain_of_not_isShift hw, plain_of_not_isShift hw'] at h
      exact Or.inl h
  · rintro (rfl | ⟨hw, hw', hx, hn⟩)
    · rfl
    · rw [plain_of_isShift hw, plain_of_isShift hw', hw.1, hw'.1, hx, hn]

theorem bytes_ofBytes (high low : UInt8) : (ofBytes high low).bytes = [high, low] := by
  have hh := high.toNat_lt
  have hl := low.toNat_lt
  rw [bytes, toNat_ofBytes]
  have hhigh : UInt8.ofNat ((256 * high.toNat + low.toNat) / 256) = high := by
    apply UInt8.toNat_inj.mp
    rw [UInt8.toNat_ofNat']
    omega
  have hlow : UInt8.ofNat ((256 * high.toNat + low.toNat) % 256) = low := by
    apply UInt8.toNat_inj.mp
    rw [UInt8.toNat_ofNat']
    omega
  rw [hhigh, hlow]

/-- A list of bytes of even length is cut into words. -/
theorem ofByteList?_of_even {bytes : List UInt8} (h : bytes.length % 2 = 0) :
    ∃ words, ofByteList? bytes = some words ∧ bytes = words.flatMap Word.bytes := by
  induction bytes using ofByteList?.induct with
  | case1 => exact ⟨[], rfl, rfl⟩
  | case2 b => cases h
  | case3 high low rest ih =>
    simp only [List.length_cons] at h
    obtain ⟨words, hwords, hrest⟩ := ih (by omega)
    refine ⟨ofBytes high low :: words, ?_, ?_⟩
    · rw [ofByteList?, hwords]
      rfl
    · rw [List.flatMap_cons, ← hrest, bytes_ofBytes]
      rfl

end Word

namespace Instruction

variable {w w' : Word} {i : Instruction} {family digit nn : UInt8}

/-! A word that is no shift is put together again from the operands that were read from it, whatever their layout. -/

theorem not_isShift_of_first (hf : w.nibbles.first.toNat = family.toNat) (h8 : family ≠ 0x8) :
    ¬ w.IsShift :=
  fun hs => h8 ((UInt8.toNat_inj.mp hf).symm.trans hs.1)

theorem ofNibbles_of_digits (hf : w.nibbles.first.toNat = family.toNat)
    (hd : w.nibbles.fourth.toNat = digit.toNat)
    (hs : family ≠ 0x8 ∨ digit ≠ 0x6 ∧ digit ≠ 0xE) :
    Word.ofNibbles ⟨family, w.nibbles.second, w.nibbles.third, digit⟩ = w.plain := by
  obtain rfl := UInt8.toNat_inj.mp hf
  obtain rfl := UInt8.toNat_inj.mp hd
  rw [Word.plain_of_not_isShift, Word.ofNibbles_nibbles]
  rintro ⟨h8, h6 | hE⟩
  · exact hs.elim (fun h => h h8) (fun h => h.1 h6)
  · exact hs.elim (fun h => h h8) (fun h => h.2 hE)

theorem withAddress_of_digits (hf : w.nibbles.first.toNat = family.toNat) (h8 : family ≠ 0x8) :
    withAddress family (Address.ofNibbles w.nibbles.second w.nibbles.third w.nibbles.fourth) =
      w.plain := by
  have hw := w.toNat_lt
  obtain ⟨ho, hx, hy, hn⟩ := w.toNat_nibbles
  rw [← ofNibbles_of_digits hf rfl (Or.inl h8), withAddress, w.toNat_lowAddress]
  congr 2
  · apply UInt8.toNat_inj.mp
    rw [UInt8.toNat_ofNat', hx]
    omega
  · apply UInt8.toNat_inj.mp
    rw [UInt8.toNat_ofNat', hy]
    omega
  · apply UInt8.toNat_inj.mp
    rw [UInt8.toNat_ofNat', hn]
    omega

theorem withByte_of_digits (hf : w.nibbles.first.toNat = family.toNat) (h8 : family ≠ 0x8)
    (hnn : (Byte.ofNibbles w.nibbles.third w.nibbles.fourth).toNat = nn.toNat) :
    withByte family w.nibbles.second nn = w.plain := by
  obtain ⟨ho, hx, hy, hn⟩ := w.toNat_nibbles
  rw [w.toNat_lowByte] at hnn
  rw [← ofNibbles_of_digits hf rfl (Or.inl h8), withByte, ← hnn]
  congr 2
  · apply UInt8.toNat_inj.mp
    rw [UInt8.toNat_ofNat', hy]
    omega
  · apply UInt8.toNat_inj.mp
    rw [UInt8.toNat_ofNat', hn]
    omega

theorem ofNibbles_of_shift (hf : w.nibbles.first.toNat = 0x8)
    (hd : w.nibbles.fourth.toNat = digit.toNat) (hs : digit = 0x6 ∨ digit = 0xE) :
    Word.ofNibbles ⟨0x8, w.nibbles.second, 0x0, digit⟩ = w.plain := by
  obtain rfl := UInt8.toNat_inj.mp hd
  have h8 : w.nibbles.first = 0x8 := UInt8.toNat_inj.mp hf
  rw [Word.plain_of_isShift ⟨h8, hs⟩, h8]

theorem eq_plain_of_number {v : Word} (hf : w.nibbles.first.toNat = 0x0)
    (hnnn : (Address.ofNibbles w.nibbles.second w.nibbles.third w.nibbles.fourth).toNat =
      v.toNat) : v = w.plain := by
  have hw := w.toNat_lt
  obtain ⟨ho, _⟩ := w.toNat_nibbles
  have hfamily : w.nibbles.first.toNat = (0x0 : UInt8).toNat := hf
  rw [Word.plain_of_not_isShift (not_isShift_of_first hfamily (by decide))]
  apply UInt16.toNat_inj.mp
  rw [w.toNat_lowAddress] at hnnn
  omega

/-- The code of the instruction that a word decodes to is the word, but for the digit that means nothing. -/
theorem encode_of_decode (h : decode w = some i) : i.encode = w.plain := by
  simp only [decode] at h
  split at h
  all_goals try split at h
  all_goals cases h
  all_goals simp only [encode]
  -- Each word of the table has one of these layouts of operands.
  all_goals first
    | with_reducible refine withAddress_of_digits ?_ ?_
    | with_reducible refine withByte_of_digits ?_ ?_ ?_
    | with_reducible refine ofNibbles_of_shift ?_ ?_ ?_
    | with_reducible refine ofNibbles_of_digits ?_ ?_ ?_
    | with_reducible refine eq_plain_of_number ?_ ?_
  all_goals first
    | assumption
    | decide
    | rfl
    | exact congrArg UInt8.toNat ‹_›
    | exact Or.inl (by decide)

theorem decode_of_isShift (h : w.IsShift) :
    decode w = some (if w.nibbles.fourth = 0x6 then shiftRight w.nibbles.second
      else shiftLeft w.nibbles.second) := by
  obtain ⟨h8, h6 | hE⟩ := h
  · simp only [decode, h8, h6]
    rfl
  · simp only [decode, h8, hE]
    rfl

theorem decode_plain (w : Word) : decode w.plain = decode w := by
  by_cases h : w.IsShift
  · rw [decode_of_isShift (Word.isShift_plain_iff.mpr h), decode_of_isShift h,
      Word.nibbles_plain_of_isShift h]
  · rw [Word.plain_of_not_isShift h]

theorem decode_eq_some_iff : decode w = some i ↔ i.InRange ∧ i.encode = w.plain := by
  constructor
  · intro h
    exact ⟨decode_inRange h, encode_of_decode h⟩
  · rintro ⟨hi, he⟩
    rw [← decode_plain, ← he, decode_encode hi]

/-- A word is no instruction iff it is not the code of one, whatever its digit that means nothing. -/
theorem decode_eq_none_iff : decode w = none ↔ ∀ i : Instruction, i.InRange → i.encode ≠ w.plain := by
  rw [Option.eq_none_iff_forall_ne_some]
  constructor
  · intro h i hi he
    exact h i (decode_eq_some_iff.mpr ⟨hi, he⟩)
  · intro h i hd
    obtain ⟨hi, he⟩ := decode_eq_some_iff.mp hd
    exact h i hi he

/-- The digit has to be cleared: 0x8016 is an instruction, and no instruction has it for a code. -/
theorem shift_word_without_code :
    ¬ (decode 0x8016 = none ↔ ∀ i : Instruction, i.InRange → i.encode ≠ 0x8016) := by
  intro h
  have hd : decode 0x8016 = some (shiftRight 0x0) := by decide
  have hnone : decode 0x8016 = none := by
    refine h.mpr fun i hi he => ?_
    have hcode := decode_encode hi
    rw [he, hd] at hcode
    cases hcode
    exact absurd he (by decide)
  rw [hd] at hnone
  cases hnone

/-- Decoding tells all words apart but those that differ in the digit that means nothing. -/
theorem decode_same_iff :
    (∃ i, decode w = some i ∧ decode w' = some i) ↔
      (decode w ≠ none ∧ w = w') ∨ w.Twins w' := by
  constructor
  · rintro ⟨i, hw, hw'⟩
    have hplain : w.plain = w'.plain := (encode_of_decode hw).symm.trans (encode_of_decode hw')
    rcases Word.plain_eq_plain_iff.mp hplain with hsame | htwins
    · exact Or.inl ⟨by rw [hw]; exact Option.some_ne_none i, hsame⟩
    · exact Or.inr htwins
  · rintro (⟨hw, rfl⟩ | htwins)
    · obtain ⟨i, hi⟩ := Option.ne_none_iff_exists'.mp hw
      exact ⟨i, hi, hi⟩
    · have hplain := Word.plain_eq_plain_iff.mpr (Or.inr htwins)
      refine ⟨_, decode_of_isShift htwins.1, ?_⟩
      rw [← decode_plain, ← hplain, decode_plain, decode_of_isShift htwins.1]

end Instruction

namespace Image

variable {words : List Word} {program : List Instruction}

theorem disassemble?_of_words {image : Image} (h : Word.ofByteList? image.bytes = some words) :
    image.disassemble? = words.mapM Instruction.decode := by
  rw [disassemble?, h, Option.bind_some]

theorem disassemble_assemble (h : ∀ i ∈ program, i.InRange) :
    (assemble program).disassemble? = some program := by
  rw [disassemble?_of_words (ofByteList?_assemble program)]
  induction program with
  | nil => rfl
  | cons i rest ih =>
    have hi := Instruction.decode_encode (h i List.mem_cons_self)
    have hrest := ih fun j hj => h j (List.mem_cons_of_mem i hj)
    rw [List.map_cons, List.mapM_cons, hi, hrest]
    rfl

/-- Words that are all instructions are decoded to a program, which assembles to the words without their digits that mean
nothing. -/
theorem assemble_of_decoded (h : ∀ w ∈ words, Instruction.decode w ≠ none) :
    ∃ program, words.mapM Instruction.decode = some program ∧ (∀ i ∈ program, i.InRange) ∧
      (assemble program).bytes = words.flatMap fun w => w.plain.bytes := by
  induction words with
  | nil => exact ⟨[], rfl, fun i hi => absurd hi List.not_mem_nil, rfl⟩
  | cons w rest ih =>
    obtain ⟨i, hi⟩ := Option.ne_none_iff_exists'.mp (h w List.mem_cons_self)
    obtain ⟨program, hrest, hrange, hbytes⟩ := ih fun v hv => h v (List.mem_cons_of_mem w hv)
    refine ⟨i :: program, ?_, ?_, ?_⟩
    · rw [List.mapM_cons, hi, hrest]
      rfl
    · intro j hj
      rcases List.mem_cons.mp hj with rfl | hj
      · exact Instruction.decode_inRange hi
      · exact hrange j hj
    · rw [assemble, List.flatMap_cons, List.flatMap_cons, ← hbytes,
        Instruction.encode_of_decode hi]
      rfl

/-- Disassembling undoes assembling. Assembling undoes the disassembling of an image of whole words that are all
instructions, but clears the digits that mean nothing; the operands of what is disassembled are in range. Two words are
the same instruction iff they are one word or differ in such a digit alone, and a word is none iff, with such a digit
cleared, it is not the code of one. -/
theorem assemble_disassemble_inverse :
    (∀ program : List Instruction, (∀ i ∈ program, i.InRange) →
      (assemble program).disassemble? = some program) ∧
    (∀ image : Image, image.length % 2 = 0 →
      ∃ words, Word.ofByteList? image.bytes = some words ∧ image.bytes = words.flatMap Word.bytes ∧
        ((∀ w ∈ words, Instruction.decode w ≠ none) →
          ∃ program, image.disassemble? = some program ∧ (∀ i ∈ program, i.InRange) ∧
            (assemble program).bytes = words.flatMap fun w => w.plain.bytes)) ∧
    (∀ w w', (∃ i, Instruction.decode w = some i ∧ Instruction.decode w' = some i) ↔
      (Instruction.decode w ≠ none ∧ w = w') ∨ w.Twins w') ∧
    ∀ w, Instruction.decode w = none ↔
      ∀ i : Instruction, i.InRange → i.encode ≠ w.plain := by
  refine ⟨fun program h => disassemble_assemble h, ?_, fun w w' => Instruction.decode_same_iff,
    fun w => Instruction.decode_eq_none_iff⟩
  intro image heven
  obtain ⟨words, hwords, hbytes⟩ := Word.ofByteList?_of_even heven
  refine ⟨words, hwords, hbytes, ?_⟩
  intro hdecode
  rw [disassemble?_of_words hwords]
  exact assemble_of_decoded hdecode

/-- A shift and a sprite, in both directions; of the word 0x8126 the digit 2 is lost. -/
theorem assemble_disassemble_inverse_shift :
    (assemble [.shiftRight 1, .draw 1 2 5]).disassemble? = some [.shiftRight 1, .draw 1 2 5] ∧
      ∃ program, (⟨[0x81, 0x26, 0xD1, 0x25]⟩ : Image).disassemble? = some program ∧
        (assemble program).bytes = [0x81, 0x06, 0xD1, 0x25] := by
  obtain ⟨hprogram, himage, _⟩ := assemble_disassemble_inverse
  constructor
  · apply hprogram
    have hshift : (Instruction.shiftRight 1).InRange := by
      change (1 : UInt8).toNat < 16
      decide
    have hdraw : (Instruction.draw 1 2 5).InRange := by
      change (1 : UInt8).toNat < 16 ∧ (2 : UInt8).toNat < 16 ∧ (5 : UInt8).toNat < 16
      decide
    exact List.forall_mem_cons.mpr ⟨hshift, List.forall_mem_singleton.mpr hdraw⟩
  · obtain ⟨words, hwords, _, hall⟩ := himage ⟨[0x81, 0x26, 0xD1, 0x25]⟩ rfl
    have hcut : Word.ofByteList? [0x81, 0x26, 0xD1, 0x25] = some [0x8126, 0xD125] := by decide
    cases hwords.symm.trans hcut
    have hdecodes : ∀ w ∈ [0x8126, 0xD125], Instruction.decode w ≠ none :=
      List.forall_mem_cons.mpr ⟨by decide, List.forall_mem_singleton.mpr (by decide)⟩
    obtain ⟨program, hd, _, hbytes⟩ := hall hdecodes
    exact ⟨program, hd, hbytes⟩

end Image

end Chip8
