import Chip8.Screen.Text
import Mathlib.Data.List.DropRight

/-!
# The text of a screen can be read

Rows are trimmed, so the lines of a screen may be shorter than its rows, but nothing in front of a trimmed blank moves and
no lit pixel is lost. A screen is read back from its text, and no two screens have the same text.
-/
namespace Chip8

open Text

/-! ## Trimmed lines -/

namespace Text.Lines

variable {c : Char}

/-- A line is the trimmed line and blanks behind it. -/
theorem exists_blanks (line : List Char) : ∃ n, line = trimEnd line ++ List.replicate n ' ' := by
  have hblanks : ∀ c ∈ line.rtakeWhile (· == ' '), c = ' ' := by
    intro c hc
    simpa using List.mem_rtakeWhile_imp hc
  refine ⟨(line.rtakeWhile (· == ' ')).length, ?_⟩
  rw [← List.eq_replicate_of_mem hblanks]
  exact List.rdropWhile_append_rtakeWhile.symm

theorem trimEnd_begins (line : List Char) : trimEnd line <+: line := List.rdropWhile_prefix _ _

theorem length_trimEnd_le (line : List Char) : (trimEnd line).length ≤ line.length :=
  (trimEnd_begins line).length_le

theorem getLast?_trimEnd_ne (line : List Char) : (trimEnd line).getLast? ≠ some ' ' := by
  intro h
  have hne : trimEnd line ≠ [] := by
    intro hnil
    rw [hnil] at h
    cases h
  have hlast := List.rdropWhile_last_not (· == ' ') line hne
  rw [List.getLast?_eq_some_getLast hne] at h
  exact hlast (beq_iff_eq.mpr (Option.some.inj h))

/-- What is no blank stays where it is. -/
theorem getElem?_trimEnd (hc : c ≠ ' ') (text : List Char) (x : Nat) :
    (trimEnd text)[x]? = some c ↔ text[x]? = some c := by
  obtain ⟨n, htext⟩ := exists_blanks text
  conv_rhs => rw [htext]
  by_cases hx : x < (trimEnd text).length
  · rw [List.getElem?_append_left hx]
  · have hle := Nat.le_of_not_lt hx
    rw [List.getElem?_eq_none hle, List.getElem?_append_right hle]
    constructor
    · intro h
      cases h
    · intro h
      exact absurd (List.eq_of_mem_replicate (List.mem_of_getElem? h)) hc

end Text.Lines

/-! ## Rows -/

namespace Screen

variable {x y : Nat}

theorem length_rowLine_le (s : Screen) (y : Nat) : (s.rowLine y).length ≤ 64 := by
  refine Nat.le_trans (Lines.length_trimEnd_le _) ?_
  rw [List.length_map, List.length_range]

theorem newline_notMem_rowLine (s : Screen) (y : Nat) : '\n' ∉ s.rowLine y := by
  intro h
  obtain ⟨x, _, hx⟩ := List.mem_map.mp ((Lines.trimEnd_begins _).mem h)
  split at hx
  · exact absurd hx (by decide)
  · exact absurd hx (by decide)

/-- A row shows a block where a pixel is lit. -/
theorem getElem?_rowLine_iff (s : Screen) (hx : x < 64) (y : Nat) :
    (s.rowLine y)[x]? = some '█' ↔ s.pixel ⟨x, y⟩ = true := by
  rw [rowLine, Lines.getElem?_trimEnd (by decide), List.getElem?_map, List.getElem?_range hx]
  by_cases h : s.pixel ⟨x, y⟩ = true
  · simp [h]
  · simp [h]

theorem getElem?_lines (s : Screen) (hy : y < 32) : s.lines[y]? = some (s.rowLine y) := by
  rw [lines, List.getElem?_map, List.getElem?_range hy]
  rfl

/-- What holds of every row holds of every line. -/
theorem forall_lines {P : List Char → Prop} (s : Screen) (h : ∀ y, P (s.rowLine y)) :
    ∀ line ∈ s.lines, P line := by
  intro line hline
  obtain ⟨y, _, rfl⟩ := List.mem_map.mp hline
  exact h y

theorem split_text (s : Screen) : Lines.split s.text.toList = s.lines := by
  rw [text, String.toList_ofList]
  exact Lines.split_join (s.forall_lines s.newline_notMem_rowLine)

/-! ## Reading a screen -/

/-- The screen whose pixels are lit where `lit` says so. -/
def ofPixels (lit : Spot → Bool) : Screen :=
  ⟨Vector.ofFn fun i => lit ⟨i % width, i / width⟩⟩

theorem pixel_ofPixels (lit : Spot → Bool) {p : Spot} (h : p.onScreen = true) :
    (ofPixels lit).pixel p = lit p := by
  obtain ⟨hx, hy⟩ := onScreen_iff.mp h
  have hcolumn : place p % width = p.x := by
    rw [place, width, Nat.mul_add_mod, Nat.mod_eq_of_lt hx]
  have hrow : place p / width = p.y := by
    rw [place, width, Nat.mul_add_div (by decide), Nat.div_eq_of_lt hx, Nat.add_zero]
  simp [pixel, ofPixels, h, place_lt h, hcolumn, hrow]

/-- The screen that a text shows. -/
def ofText (text : String) : Screen :=
  ofPixels fun p => ((Lines.split text.toList).getD p.y [])[p.x]? == some '█'

theorem ofText_text (s : Screen) : ofText s.text = s := by
  apply ext_pixel
  intro p h
  obtain ⟨hx, hy⟩ := onScreen_iff.mp h
  rw [ofText, pixel_ofPixels _ h, split_text, List.getD_eq_getElem?_getD, s.getElem?_lines hy,
    Option.getD_some, Bool.eq_iff_iff, beq_iff_eq]
  exact s.getElem?_rowLine_iff hx p.y

/-- The text of a screen has a line for each row, of 64 characters at most and without a blank at its end, and a pixel is lit
iff the line of its row is long enough and has a block there. The screen is read back from it. -/
theorem text_lossless :
    (∀ s : Screen, ∃ lines : List (List Char),
      s.text.toList = Lines.join lines ∧ lines.length = 32 ∧
      (∀ line ∈ lines, '\n' ∉ line ∧ line.length ≤ 64 ∧ line.getLast? ≠ some ' ') ∧
      ∀ x < 64, ∀ y < 32, s.pixel ⟨x, y⟩ = true ↔
        ∃ row, lines[y]? = some row ∧ x < row.length ∧ row[x]? = some '█') ∧
    (∀ s : Screen, ofText s.text = s) ∧
    ∀ s s' : Screen, s.text = s'.text ↔ s = s' := by
  refine ⟨fun s => ⟨s.lines, ?_, ?_, ?_, ?_⟩, ofText_text, fun s s' => ?_⟩
  · rw [text, String.toList_ofList]
  · rw [lines, List.length_map, List.length_range]
  · exact s.forall_lines fun y =>
      ⟨s.newline_notMem_rowLine y, s.length_rowLine_le y, Lines.getLast?_trimEnd_ne _⟩
  · intro x hx y hy
    rw [← s.getElem?_rowLine_iff hx y, s.getElem?_lines hy]
    constructor
    · intro h
      exact ⟨_, rfl, (List.getElem?_eq_some_iff.mp h).1, h⟩
    · rintro ⟨row, hrow, _, h⟩
      cases hrow
      exact h
  · exact (Function.LeftInverse.injective ofText_text).eq_iff

/-- Nothing is lit but the last pixel of the first row and the second pixel of the last one. -/
def twoPixels : Screen := (blank.flip ⟨63, 0⟩).flip ⟨1, 31⟩

theorem pixel_twoPixels (p : Spot) : twoPixels.pixel p = decide (p = ⟨63, 0⟩ ∨ p = ⟨1, 31⟩) := by
  have hfirst : (⟨63, 0⟩ : Spot).onScreen = true := rfl
  have hlast : (⟨1, 31⟩ : Spot).onScreen = true := rfl
  simp only [twoPixels, pixel_flip, pixel_blank, hfirst, hlast, and_true]
  by_cases hp : p = ⟨1, 31⟩
  · simp [hp]
  · simp [hp]

/-- The first line goes to the end of its row. The last one has a block and shows nothing behind it. -/
theorem text_lossless_two_pixels : ∃ lines first last,
    twoPixels.text.toList = Lines.join lines ∧ lines.length = 32 ∧
      lines[0]? = some first ∧ first[63]? = some '█' ∧
      lines[31]? = some last ∧ last[1]? = some '█' ∧ last[2]? ≠ some '█' ∧
      ofText twoPixels.text = twoPixels := by
  obtain ⟨hlines, hread, _⟩ := text_lossless
  obtain ⟨lines, htext, hlength, _, hpixel⟩ := hlines twoPixels
  obtain ⟨first, hfirst, _, hright⟩ := (hpixel 63 (by decide) 0 (by decide)).mp
    (by rw [pixel_twoPixels]; decide)
  obtain ⟨last, hlast, _, hleft⟩ := (hpixel 1 (by decide) 31 (by decide)).mp
    (by rw [pixel_twoPixels]; decide)
  refine ⟨lines, first, last, htext, hlength, hfirst, hright, hlast, hleft, ?_, hread twoPixels⟩
  intro h
  have hlit := (hpixel 2 (by decide) 31 (by decide)).mpr
    ⟨last, hlast, (List.getElem?_eq_some_iff.mp h).1, h⟩
  rw [pixel_twoPixels] at hlit
  exact absurd hlit (by decide)

end Screen

end Chip8
