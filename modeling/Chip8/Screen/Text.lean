import Chip8.Screen.Basic
import Chip8.Text.Lines

/-!
# The screen as text

A line per row and a character per pixel: a full block if it is lit and a blank if not. Blanks at the end
of a line are left out.
-/
namespace Chip8.Screen

def rowLine (s : Screen) (y : Nat) : List Char :=
  Text.Lines.trimEnd ((List.range width).map fun x => if s.pixel ⟨x, y⟩ then '█' else ' ')

def lines (s : Screen) : List (List Char) :=
  (List.range height).map s.rowLine

def text (s : Screen) : String :=
  String.ofList (Text.Lines.join s.lines)

end Chip8.Screen
