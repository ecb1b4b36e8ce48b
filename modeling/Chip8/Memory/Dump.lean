import Chip8.Memory.Basic
import Chip8.Text.Lines

/-!
# Dumps

The dump of a memory is a table of 32 columns and 128 rows under two lines of heading. A row starts with
the address of its first byte, and each cell is two digits and a blank.
-/
namespace Chip8.Memory

def columns : Nat := 32

def rows : Nat := 128

/-- A cell of the table. -/
def cell (value : Nat) : List Char := Text.Hex.padded 2 value ++ [' ']

/-- The numbers of the columns, and a rule below them. -/
def headingLines : List (List Char) :=
  [List.replicate 5 ' ' ++ (List.range columns).flatMap cell,
   List.replicate 5 ' ' ++ List.replicate (3 * columns) '-']

def rowLine (m : Memory) (row : Nat) : List Char :=
  Text.Hex.padded 3 (columns * row) ++ ':' :: ' ' ::
    (List.range columns).flatMap fun column => cell (m.byte (columns * row + column)).toNat

def dumpLines (m : Memory) : List (List Char) :=
  headingLines ++ (List.range rows).map m.rowLine

/-- The table as text. -/
def dump (m : Memory) : String :=
  String.ofList (Text.Lines.join m.dumpLines)

end Chip8.Memory
