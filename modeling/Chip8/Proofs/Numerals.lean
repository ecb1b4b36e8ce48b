import Chip8.Text.Hex
import Mathlib.Algebra.Group.Nat.Defs

/-!
# How numerals look

The characters of a hexadecimal numeral, how many of them there are, and which of them stands where. A number that needs no
more digits than a numeral is padded to has exactly that many, and each of them can be told from the number.
-/
namespace Chip8.Text.Hex

/-- The sixteen digits. -/
def alphabet : List Char := "0123456789ABCDEF".toList

variable {width n : Nat} {c : Char}

theorem digit_mem_alphabet : ∀ d < 16, digit d ∈ alphabet := by decide

theorem mem_alphabet_of_mem_digits (h : c ∈ digits n) : c ∈ alphabet := by
  obtain ⟨d, hd, rfl⟩ := mem_digits h
  exact digit_mem_alphabet d hd

theorem mem_alphabet_of_mem_padded (h : c ∈ padded width n) : c ∈ alphabet := by
  obtain ⟨d, hd, rfl⟩ := mem_padded h
  exact digit_mem_alphabet d hd

/-- A character that is no digit is in no numeral. -/
theorem notMem_padded (hc : c ∉ alphabet) (width n : Nat) : c ∉ padded width n := fun h =>
  hc (mem_alphabet_of_mem_padded h)

theorem length_digits_le (h : n < 16 ^ (width + 1)) : (digits n).length ≤ width + 1 := by
  fun_induction digits n generalizing width with
  | case1 n hn =>
    rw [List.length_singleton]
    omega
  | case2 n hn ih =>
    cases width with
    | zero => exact absurd h hn
    | succ width =>
      have hpow : 16 ^ (width + 1 + 1) = 16 ^ (width + 1) * 16 := pow_succ _ _
      have hrest : (digits (n / 16)).length ≤ width + 1 := ih (by omega)
      rw [List.length_append, List.length_singleton]
      omega

theorem length_padded_of_lt (h : n < 16 ^ (width + 1)) : (padded (width + 1) n).length = width + 1 := by
  have hle := length_digits_le h
  rw [padded, List.length_leftpad]
  omega

/-! ## Digits by their place -/

/-- Whether a text has the numeral of a number from a column on, with `width` digits and the highest of them first. What is
taken from the alphabet is always one of its sixteen digits. -/
def ShownAt (text : List Char) (column width n : Nat) : Prop :=
  n < 16 ^ width ∧ ∀ k < width, text[column + k]? = alphabet[n / 16 ^ (width - 1 - k) % 16]?

theorem getElem?_alphabet : ∀ d < 16, alphabet[d]? = some (digit d) := by decide

/-- The last digit of a numeral that is long enough for one more. -/
theorem padded_succ (hw : 0 < width) (n : Nat) :
    padded (width + 1) n = padded width (n / 16) ++ [digit (n % 16)] := by
  by_cases hn : n < 16
  · obtain ⟨zeros, rfl⟩ := Nat.exists_eq_add_of_lt hw
    have hzero : digits 0 = ['0'] := by
      rw [digits]
      rfl
    rw [padded, padded, Nat.div_eq_of_lt hn, Nat.mod_eq_of_lt hn, hzero, digits, if_pos hn]
    simp only [List.leftpad, List.length_singleton, Nat.add_sub_cancel, Nat.zero_add,
      List.replicate_succ']
  · have hdigits : digits n = digits (n / 16) ++ [digit (n % 16)] := by
      rw [digits, if_neg hn]
    rw [padded, padded, hdigits, List.leftpad, List.leftpad, List.length_append,
      List.length_singleton, Nat.add_sub_add_right, List.append_assoc]

theorem getElem?_padded (h : n < 16 ^ (width + 1)) {k : Nat} (hk : k ≤ width) :
    (padded (width + 1) n)[k]? = alphabet[n / 16 ^ (width - k) % 16]? := by
  rw [getElem?_alphabet _ (Nat.mod_lt _ (by decide))]
  induction width generalizing n k with
  | zero =>
    have hn : n < 16 := h
    obtain rfl : k = 0 := by omega
    rw [padded, digits, if_pos hn, pow_zero, Nat.div_one, Nat.mod_eq_of_lt hn]
    rfl
  | succ width ih =>
    have hpow : 16 ^ (width + 1 + 1) = 16 ^ (width + 1) * 16 := pow_succ _ _
    have hrest : n / 16 < 16 ^ (width + 1) := by omega
    rw [padded_succ (Nat.succ_pos width)]
    by_cases hlast : k = width + 1
    · have hlength : (padded (width + 1) (n / 16)).length = k := by
        rw [length_padded_of_lt hrest, hlast]
      rw [← hlength, List.getElem?_concat_length, hlength, hlast, Nat.sub_self, pow_zero, Nat.div_one]
    · have hle : k ≤ width := by omega
      have hplace : width + 1 - k = width - k + 1 := by omega
      rw [List.getElem?_append_left (by rw [length_padded_of_lt hrest]; omega), ih hrest hle,
        Nat.div_div_eq_div_mul, hplace, pow_succ, Nat.mul_comm]

theorem shownAt_of_take {text : List Char} {column : Nat} (h : n < 16 ^ (width + 1))
    (htake : (text.drop column).take (width + 1) = padded (width + 1) n) :
    ShownAt text column (width + 1) n := by
  refine ⟨h, fun k hk => ?_⟩
  rw [← List.getElem?_drop, ← List.getElem?_take_of_lt hk, htake, getElem?_padded h (by omega)]
  rfl

end Chip8.Text.Hex
