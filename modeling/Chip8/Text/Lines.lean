/-!
# Lines of text

A text is a list of lines, each closed by a line end. A line that holds no line end can be cut off
again, so the lines of a text are determined by the text.
-/
namespace Chip8.Text.Lines

/-- The text of a list of lines. -/
def join (lines : List (List Char)) : List Char :=
  lines.flatMap fun line => line ++ ['\n']

/-- A line without the blanks at its end. -/
def trimEnd (line : List Char) : List Char :=
  (line.reverse.dropWhile (· == ' ')).reverse

/-- The lines of a text. What follows the last line end is a line as well, if it is not empty. -/
def split : List Char → List (List Char)
  | [] => []
  | c :: rest =>
    if c = '\n' then [] :: split rest
    else
      match split rest with
      | [] => [[c]]
      | line :: lines => (c :: line) :: lines

theorem join_cons (line : List Char) (rest : List (List Char)) :
    join (line :: rest) = line ++ '\n' :: join rest := by
  simp [join]

/-- A line is cut off at its line end. -/
theorem split_append {line : List Char} (text : List Char) (h : '\n' ∉ line) :
    split (line ++ '\n' :: text) = line :: split text := by
  induction line with
  | nil => rfl
  | cons c line ih =>
    have hc : c ≠ '\n' := fun equal => h (List.mem_cons.mpr (Or.inl equal.symm))
    rw [List.cons_append, split, if_neg hc, ih fun inside => h (List.mem_cons_of_mem c inside)]

theorem split_join {lines : List (List Char)} (h : ∀ line ∈ lines, '\n' ∉ line) :
    split (join lines) = lines := by
  induction lines with
  | nil => rfl
  | cons line rest ih =>
    rw [join_cons, split_append _ (h line List.mem_cons_self),
      ih fun l hl => h l (List.mem_cons_of_mem line hl)]

theorem join_injective {a b : List (List Char)} (ha : ∀ line ∈ a, '\n' ∉ line)
    (hb : ∀ line ∈ b, '\n' ∉ line) (h : join a = join b) : a = b := by
  rw [← split_join ha, h, split_join hb]

end Chip8.Text.Lines
