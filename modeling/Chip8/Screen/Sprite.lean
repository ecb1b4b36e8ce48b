import Chip8.Screen.Basic

/-!
# Drawing sprites

A sprite is eight pixels wide and has a byte per row, of which the highest bit is the leftmost pixel. The
spots of a sprite are those that its set bits fall on, once per bit; a sprite of more than 32 rows can meet a
spot several times.
-/
namespace Chip8

namespace Sprite

/-- The columns of the set bits of a row, from the left. -/
def columns (row : UInt8) : List Nat :=
  (List.range 8).filter fun column => row.toNat.testBit (7 - column)

/-- The spots of a sprite with its upper left corner at column `x` and row `y`. -/
def spots (x y : Nat) : List UInt8 → List Spot
  | [] => []
  | row :: rest =>
    (columns row).map (fun column => ⟨(x + column) % Screen.width, y % Screen.height⟩)
      ++ spots x (y + 1) rest

theorem onScreen_of_mem_spots {x y : Nat} {sprite : List UInt8} {p : Spot}
    (h : p ∈ spots x y sprite) : p.onScreen = true := by
  induction sprite generalizing y with
  | nil => cases h
  | cons row rest ih =>
    rcases List.mem_append.mp h with here | below
    · obtain ⟨column, _, rfl⟩ := List.mem_map.mp here
      exact Screen.onScreen_iff.mpr ⟨Nat.mod_lt _ (by decide), Nat.mod_lt _ (by decide)⟩
    · exact ih below

end Sprite

/-- A screen that is being drawn on, and how many flips so far found their pixel lit. -/
structure Drawing where
  screen : Screen
  hits : Nat
deriving DecidableEq

namespace Drawing

def flip (d : Drawing) (p : Spot) : Drawing :=
  ⟨d.screen.flip p, d.hits + (d.screen.pixel p).toNat⟩

/-- Whether some flip found its pixel lit. -/
def collision (d : Drawing) : Bool := d.hits != 0

end Drawing

namespace Screen

def flipAll (s : Screen) (ps : List Spot) : Drawing :=
  ps.foldl Drawing.flip ⟨s, 0⟩

/-- Draws a sprite with its upper left corner at column `x` and row `y`. -/
def draw (s : Screen) (x y : UInt8) (sprite : List UInt8) : Drawing :=
  s.flipAll (Sprite.spots x.toNat y.toNat sprite)

end Screen

end Chip8
