import Chip8.Image.Assembly
import Chip8.Proofs.Decoding

/-!
# Encoding and decoding

A word that is put together from nibbles comes apart into the same nibbles, so an instruction whose operands fit their
digits is the one that its word decodes to. An assembled program holds the word of each instruction at twice its number.
-/
namespace Chip8

theorem Word.nibbles_ofNibbles {a b c d : UInt8} (ha : a.toNat < 16) (hb : b.toNat < 16)
    (hc : c.toNat < 16) (hd : d.toNat < 16) :
    (Word.ofNibbles ⟨a, b, c, d⟩).nibbles = ⟨a, b, c, d⟩ := by
  simp only [Word.nibbles, Word.ofNibbles, UInt16.toNat_ofNat', Nibbles.mk.injEq,
    ← UInt8.toNat_inj, UInt8.toNat_ofNat']
  omega

/-- A byte is put together from its two digits. -/
theorem Byte.ofNibbles_digits (b : UInt8) :
    Byte.ofNibbles (UInt8.ofNat (b.toNat / 16)) (UInt8.ofNat (b.toNat % 16)) = b := by
  have := b.toNat_lt
  apply UInt8.toNat_inj.mp
  simp only [Byte.toNat_ofNibbles, UInt8.toNat_ofNat']
  omega

/-- So is an address from its three. -/
theorem Address.ofNibbles_digits {a : Address} (h : a.toNat < 4096) :
    Address.ofNibbles (UInt8.ofNat (a.toNat / 256 % 16)) (UInt8.ofNat (a.toNat / 16 % 16))
      (UInt8.ofNat (a.toNat % 16)) = a := by
  apply UInt16.toNat_inj.mp
  simp only [Address.toNat_ofNibbles, UInt8.toNat_ofNat']
  omega

namespace Instruction

variable {family x nn : UInt8} {nnn : Address} {i : Instruction}

theorem nibbles_withByte (hf : family.toNat < 16) (hx : x.toNat < 16) :
    (withByte family x nn).nibbles =
      ⟨family, x, UInt8.ofNat (nn.toNat / 16), UInt8.ofNat (nn.toNat % 16)⟩ := by
  have := nn.toNat_lt
  refine Word.nibbles_ofNibbles hf hx ?_ ?_
  · simp only [UInt8.toNat_ofNat']
    omega
  · simp only [UInt8.toNat_ofNat']
    omega

theorem nibbles_withAddress (hf : family.toNat < 16) :
    (withAddress family nnn).nibbles =
      ⟨family, UInt8.ofNat (nnn.toNat / 256 % 16), UInt8.ofNat (nnn.toNat / 16 % 16),
        UInt8.ofNat (nnn.toNat % 16)⟩ := by
  refine Word.nibbles_ofNibbles hf ?_ ?_ ?_
  · simp only [UInt8.toNat_ofNat']
    omega
  · simp only [UInt8.toNat_ofNat']
    omega
  · simp only [UInt8.toNat_ofNat']
    omega

/-- An instruction whose operands fit their digits is the one that its word decodes to. -/
theorem decode_encode (h : i.InRange) : decode i.encode = some i := by
  cases i with
  | clearScreen | ret => decide
  | jump nnn | call nnn | loadIndex nnn | jumpOffset nnn =>
    rw [encode, decode, nibbles_withAddress (by decide)]
    simp only [Address.ofNibbles_digits h]
    rfl
  | skipIfSame x y | skipIfDifferent x y | move x y | or x y | and x y | xor x y
  | addRegister x y | sub x y | subReversed x y =>
    rw [encode, decode, Word.nibbles_ofNibbles (by decide) h.1 h.2 (by decide)]
    rfl
  | shiftRight x | shiftLeft x =>
    rw [encode, decode, Word.nibbles_ofNibbles (by decide) h (by decide) (by decide)]
    rfl
  | draw x y n =>
    rw [encode, decode, Word.nibbles_ofNibbles (by decide) h.1 h.2.1 h.2.2]
    rfl
  | _ =>
    rw [encode, decode, nibbles_withByte (by decide) h]
    simp only [Byte.ofNibbles_digits]
    rfl

end Instruction

variable {bytes : List UInt8} {words : List Word}

theorem Word.length_of_ofByteList? (h : Word.ofByteList? bytes = some words) :
    bytes.length = 2 * words.length := by
  induction bytes using Word.ofByteList?.induct generalizing words with
  | case1 =>
    cases h
    rfl
  | case2 => cases h
  | case3 high low rest ih =>
    obtain ⟨tail, htail, rfl⟩ := Option.map_eq_some_iff.mp h
    have hrest := ih htail
    simp only [List.length_cons]
    omega

/-- Word `k` of a list of bytes is joined from bytes `2 * k` and `2 * k + 1`. -/
theorem Word.getElem_of_ofByteList? (h : Word.ofByteList? bytes = some words) {k : Nat}
    (hk : k < words.length) :
    Word.ofBytes (bytes.getD (2 * k) 0) (bytes.getD (2 * k + 1) 0) = words[k] := by
  induction bytes using Word.ofByteList?.induct generalizing words k with
  | case1 =>
    cases h
    exact absurd hk (Nat.not_lt_zero k)
  | case2 => cases h
  | case3 high low rest ih =>
    obtain ⟨tail, htail, rfl⟩ := Option.map_eq_some_iff.mp h
    cases k with
    | zero => rfl
    | succ k => exact ih htail (Nat.lt_of_succ_lt_succ hk)

namespace Image

theorem length_assemble (program : List Instruction) :
    (assemble program).bytes.length = 2 * program.length := by
  rw [Word.length_of_ofByteList? (ofByteList?_assemble program), List.length_map]

theorem word_assemble (program : List Instruction) {k : Nat} (hk : k < program.length) :
    Word.ofBytes ((assemble program).bytes.getD (2 * k) 0)
      ((assemble program).bytes.getD (2 * k + 1) 0) = program[k].encode := by
  have hwords := ofByteList?_assemble program
  rw [Word.getElem_of_ofByteList? hwords (by rw [List.length_map]; exact hk), List.getElem_map]

end Image

end Chip8
