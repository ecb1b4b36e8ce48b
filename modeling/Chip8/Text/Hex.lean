/-!
# Hexadecimal numerals

Upper-case numerals of natural numbers, padded with zeros to a least width and never cut. They are
built as lists of characters; `read` gives the number back whatever the width, so a numeral determines
its number.
-/
namespace Chip8.Text.Hex

/-- The character of one digit below sixteen. -/
def digit (d : Nat) : Char :=
  if d < 10 then Char.ofNat (48 + d) else Char.ofNat (55 + d)

/-- The shortest numeral of a number. -/
def digits (n : Nat) : List Char :=
  if n < 16 then [digit n] else digits (n / 16) ++ [digit (n % 16)]

/-- The numeral of a number with at least `width` digits. -/
def padded (width n : Nat) : List Char :=
  (digits n).leftpad width '0'

/-- The number of a digit character. -/
def digitValue (c : Char) : Nat :=
  if c.toNat < 65 then c.toNat - 48 else c.toNat - 55

/-- The number that a numeral stands for. -/
def read (cs : List Char) : Nat :=
  cs.foldl (fun n c => 16 * n + digitValue c) 0

theorem digitValue_digit {d : Nat} (h : d < 16) : digitValue (digit d) = d := by
  have small : ∀ d : Fin 16, digitValue (digit d) = d := by decide
  exact small ⟨d, h⟩

theorem read_append_singleton (cs : List Char) (c : Char) :
    read (cs ++ [c]) = 16 * read cs + digitValue c := by
  simp [read]

theorem read_digits (n : Nat) : read (digits n) = n := by
  fun_induction digits n with
  | case1 n h => simp [read, digitValue_digit h]
  | case2 n h ih =>
    rw [read_append_singleton, ih, digitValue_digit (Nat.mod_lt _ (by omega))]
    omega

theorem read_zeros_append (k : Nat) (cs : List Char) :
    read (List.replicate k '0' ++ cs) = read cs := by
  induction k with
  | zero => simp
  | succ k ih =>
    rw [List.replicate_succ, List.cons_append]
    exact ih

theorem read_padded (width n : Nat) : read (padded width n) = n := by
  rw [padded, List.leftpad, read_zeros_append, read_digits]

theorem padded_injective {width m n : Nat} (h : padded width m = padded width n) : m = n := by
  rw [← read_padded width m, h, read_padded]

theorem mem_digits {n : Nat} {c : Char} (h : c ∈ digits n) : ∃ d < 16, c = digit d := by
  fun_induction digits n with
  | case1 n hn => exact ⟨n, hn, List.mem_singleton.mp h⟩
  | case2 n hn ih =>
    rcases List.mem_append.mp h with hc | hc
    · exact ih hc
    · exact ⟨n % 16, Nat.mod_lt _ (by decide), List.mem_singleton.mp hc⟩

/-- A numeral has no other characters than digits. -/
theorem mem_padded {width n : Nat} {c : Char} (h : c ∈ padded width n) :
    ∃ d < 16, c = digit d := by
  rw [padded, List.leftpad] at h
  rcases List.mem_append.mp h with hzero | hc
  · exact ⟨0, by decide, List.eq_of_mem_replicate hzero⟩
  · exact mem_digits hc

theorem le_length_padded (width n : Nat) : width ≤ (padded width n).length := by
  simp only [padded, List.leftpad, List.length_append, List.length_replicate]
  omega

end Chip8.Text.Hex
