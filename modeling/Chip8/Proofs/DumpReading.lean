import Chip8.Memory.Dump
import Chip8.Proofs.Numerals

/-!
# Dumps can be read

Every numeral in the table of a dump has a width of its own and every cell the same, so the digits of a byte stand in a row
and at columns that its address tells. A memory is read back from its dump, and no two memories have the same one.
-/
namespace Chip8.Memory

open Text

/-! ## Cells -/

/-- One of many pieces of the same length is found by its number. -/
theorem take_drop_flatMap {α β : Type} {f : α → List β} {width : Nat}
    (hwidth : ∀ a, (f a).length = width) {l : List α} {k : Nat} {a : α} (h : l[k]? = some a) :
    ((l.flatMap f).drop (width * k)).take width = f a := by
  induction l generalizing k with
  | nil => cases h
  | cons b rest ih =>
    cases k with
    | zero =>
      cases h
      rw [List.flatMap_cons, Nat.mul_zero, List.drop_zero, ← hwidth a, List.take_left]
    | succ k =>
      have hplace : width * (k + 1) = (f b).length + width * k := by
        rw [hwidth, Nat.mul_succ, Nat.add_comm]
      rw [List.flatMap_cons, hplace, List.drop_length_add_append]
      exact ih h

theorem length_cell (b : UInt8) : (cell b.toNat).length = 3 := by
  rw [cell, List.length_append, Hex.length_padded_of_lt b.toNat_lt]
  rfl

theorem newline_notMem_cell (n : Nat) : '\n' ∉ cell n := by
  simp [cell, Hex.notMem_padded (c := '\n') (by decide)]

/-! ## Rows -/

theorem length_address {row : Nat} (h : row < 128) : (Hex.padded 3 (32 * row)).length = 3 :=
  Hex.length_padded_of_lt (by omega)

theorem take_rowLine (m : Memory) {row : Nat} (h : row < 128) :
    (m.rowLine row).take 3 = Hex.padded 3 (32 * row) :=
  List.take_left' (length_address h)

/-- The digits of a byte stand behind the address of the row, a colon, a blank and the cells before. -/
theorem take_drop_rowLine (m : Memory) {row column : Nat} (hrow : row < 128)
    (hcolumn : column < 32) :
    ((m.rowLine row).drop (5 + 3 * column)).take 2 =
      Hex.padded 2 (m.byte (32 * row + column)).toNat := by
  let cells := (List.range 32).flatMap fun column => cell (m.byte (32 * row + column)).toNat
  have hline : m.rowLine row = (Hex.padded 3 (32 * row) ++ [':', ' ']) ++ cells := by
    rw [List.append_assoc]
    rfl
  have hlength : (Hex.padded 3 (32 * row) ++ [':', ' ']).length = 5 := by
    rw [List.length_append, length_address hrow]
    rfl
  have hcell : (cells.drop (3 * column)).take 3 = cell (m.byte (32 * row + column)).toNat :=
    take_drop_flatMap (fun column => length_cell _) (List.getElem?_range hcolumn)
  have hdigits : (cell (m.byte (32 * row + column)).toNat).take 2 =
      Hex.padded 2 (m.byte (32 * row + column)).toNat :=
    List.take_left' (Hex.length_padded_of_lt (m.byte _).toNat_lt)
  rw [hline, ← hlength, List.drop_length_add_append, ← hdigits, ← hcell, List.take_take]
  rfl

theorem newline_notMem_rowLine (m : Memory) (row : Nat) : '\n' ∉ m.rowLine row := by
  simp [rowLine, Hex.notMem_padded (c := '\n') (by decide), newline_notMem_cell]

theorem newline_notMem_headingLines : ∀ line ∈ headingLines, '\n' ∉ line := by
  simp [headingLines, newline_notMem_cell]

/-! ## The table -/

theorem newline_notMem_dumpLines (m : Memory) : ∀ line ∈ m.dumpLines, '\n' ∉ line := by
  intro line hline
  rcases List.mem_append.mp hline with hheading | hrow
  · exact newline_notMem_headingLines line hheading
  · obtain ⟨row, _, rfl⟩ := List.mem_map.mp hrow
    exact m.newline_notMem_rowLine row

theorem getElem?_dumpLines (m : Memory) {row : Nat} (h : row < 128) :
    m.dumpLines[2 + row]? = some (m.rowLine row) := by
  have hheading : headingLines.length = 2 := rfl
  rw [dumpLines, List.getElem?_append_right (by omega), hheading, Nat.add_sub_cancel_left,
    List.getElem?_map, rows, List.getElem?_range h]
  rfl

theorem split_dump (m : Memory) : Lines.split m.dump.toList = m.dumpLines := by
  rw [dump, String.toList_ofList]
  exact Lines.split_join m.newline_notMem_dumpLines

/-! ## Reading a dump -/

/-- The memory with the bytes that `f` gives. -/
def ofFn (f : Nat → UInt8) : Memory := ⟨Vector.ofFn fun a => f a⟩

theorem byte_ofFn (f : Nat → UInt8) {a : Nat} (h : a < size) : (ofFn f).byte a = f a := by
  have ha : a < 4096 := h
  simp [byte, ofFn, ha]

/-- The memory that a dump shows. -/
def ofDump (text : String) : Memory :=
  ofFn fun a => UInt8.ofNat (Hex.read
    ((((Lines.split text.toList).getD (2 + a / 32) []).drop (5 + 3 * (a % 32))).take 2))

theorem ofDump_dump (m : Memory) : ofDump m.dump = m := by
  apply ext_byte
  intro a h
  have hrow : a / 32 < 128 := Nat.div_lt_of_lt_mul h
  have hcolumn : a % 32 < 32 := Nat.mod_lt _ (by decide)
  rw [ofDump, byte_ofFn _ h, split_dump, List.getD_eq_getElem?_getD, m.getElem?_dumpLines hrow,
    Option.getD_some, m.take_drop_rowLine hrow hcolumn, Hex.read_padded, UInt8.ofNat_toNat,
    Nat.div_add_mod]

/-- The dump of a memory has 128 lines under two lines of heading. The one with the byte at an address begins with the
address of its first byte, and the two digits of the byte stand at the column of the address. The memory is read back
from it. -/
theorem dump_lossless :
    (∀ m : Memory, ∃ rows : List (List Char),
      m.dump.toList = Lines.join (headingLines ++ rows) ∧
      headingLines.length = 2 ∧ rows.length = 128 ∧
      (∀ line ∈ headingLines ++ rows, '\n' ∉ line) ∧
      ∀ a < 4096, ∃ row, (headingLines ++ rows)[2 + a / 32]? = some row ∧
        Hex.ShownAt row 0 3 (32 * (a / 32)) ∧
        Hex.ShownAt row (5 + 3 * (a % 32)) 2 (m.byte a).toNat) ∧
    (∀ m : Memory, ofDump m.dump = m) ∧
    ∀ m m' : Memory, m.dump = m'.dump ↔ m = m' := by
  refine ⟨fun m => ⟨(List.range rows).map m.rowLine, ?_, rfl, ?_, m.newline_notMem_dumpLines, ?_⟩,
    ofDump_dump, fun m m' => ?_⟩
  · rw [dump, String.toList_ofList]
    rfl
  · rw [List.length_map, List.length_range, rows]
  · intro a h
    have hrow : a / 32 < 128 := Nat.div_lt_of_lt_mul h
    have hcolumn : a % 32 < 32 := Nat.mod_lt _ (by decide)
    refine ⟨m.rowLine (a / 32), m.getElem?_dumpLines hrow, ?_, ?_⟩
    · exact Hex.shownAt_of_take (by omega) (m.take_rowLine hrow)
    · have hdigits := m.take_drop_rowLine hrow hcolumn
      rw [Nat.div_add_mod] at hdigits
      exact Hex.shownAt_of_take (m.byte a).toNat_lt hdigits
  · exact (Function.LeftInverse.injective ofDump_dump).eq_iff

/-- A memory with a byte at its last address. -/
def endMarked : Memory := fresh.put 0xFFF 0xAB

/-- The last byte stands in the last cell of the last line. -/
theorem dump_lossless_last_cell : ∃ rows row,
    endMarked.dump.toList = Lines.join (headingLines ++ rows) ∧ rows.length = 128 ∧
      (headingLines ++ rows)[129]? = some row ∧
      row[0]? = some 'F' ∧ row[1]? = some 'E' ∧ row[2]? = some '0' ∧
      row[98]? = some 'A' ∧ row[99]? = some 'B' ∧
      ofDump endMarked.dump = endMarked := by
  obtain ⟨hlines, hread, _⟩ := dump_lossless
  obtain ⟨rows, htext, _, hlength, _, hbytes⟩ := hlines endMarked
  obtain ⟨row, hrow, haddress, hdigits⟩ := hbytes 0xFFF (by decide)
  have hbyte : endMarked.byte 0xFFF = 0xAB := by
    rw [endMarked, byte_put, if_pos ⟨rfl, by decide⟩]
  rw [hbyte] at hdigits
  exact ⟨rows, row, htext, hlength, hrow, haddress.2 0 (by decide), haddress.2 1 (by decide),
    haddress.2 2 (by decide), hdigits.2 0 (by decide), hdigits.2 1 (by decide), hread endMarked⟩

end Chip8.Memory
