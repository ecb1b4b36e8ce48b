/-!
# The screen

A grid of 64 columns and 32 rows of pixels, each lit or not. A sprite is drawn by flipping the pixels
under its set bits; it wraps around both edges. A drawing keeps count of the flips that found their pixel
lit, which is what a collision is.
-/
namespace Chip8

structure Screen where
  pixels : Vector Bool 2048
deriving DecidableEq

/-- A column and a row. -/
structure Spot where
  x : Nat
  y : Nat
deriving DecidableEq, Repr

abbrev Screen.width : Nat := 64

abbrev Screen.height : Nat := 32

def Spot.onScreen (p : Spot) : Bool := p.x < Screen.width && p.y < Screen.height

namespace Screen

def blank : Screen := ⟨Vector.replicate 2048 false⟩

/-- A pixel's place in row order. -/
def place (p : Spot) : Nat := width * p.y + p.x

/-- Whether a pixel is lit. Off the screen none is. -/
def pixel (s : Screen) (p : Spot) : Bool :=
  p.onScreen && s.pixels[place p]?.getD false

/-- Turns a lit pixel off and any other on. Off the screen nothing happens. -/
def flip (s : Screen) (p : Spot) : Screen :=
  if p.onScreen then ⟨s.pixels.setIfInBounds (place p) (!s.pixel p)⟩ else s

/-- The number of lit pixels. -/
def lit (s : Screen) : Nat := s.pixels.toList.count true

theorem onScreen_iff {p : Spot} : p.onScreen = true ↔ p.x < 64 ∧ p.y < 32 := by
  simp [Spot.onScreen, width, height]

theorem place_lt {p : Spot} (h : p.onScreen = true) : place p < 2048 := by
  obtain ⟨hx, hy⟩ := onScreen_iff.1 h
  simp only [place, width]
  omega

/-- Spots on the screen have places of their own. -/
theorem place_injective {p q : Spot} (hp : p.onScreen = true) (hq : q.onScreen = true)
    (h : place p = place q) : p = q := by
  obtain ⟨hpx, hpy⟩ := onScreen_iff.1 hp
  obtain ⟨hqx, hqy⟩ := onScreen_iff.1 hq
  obtain ⟨px, py⟩ := p
  obtain ⟨qx, qy⟩ := q
  simp only [place, width] at h hpx hpy hqx hqy
  rw [show px = qx by omega, show py = qy by omega]

theorem pixel_blank (p : Spot) : blank.pixel p = false := by
  unfold pixel blank
  by_cases h : p.onScreen = true
  · simp [h, place_lt h]
  · simp [h]

theorem pixel_of_not_onScreen {s : Screen} {p : Spot} (h : p.onScreen = false) :
    s.pixel p = false := by
  simp [pixel, h]

/-- A flip changes the pixel it is made at and no other. -/
theorem pixel_flip (s : Screen) (p q : Spot) :
    (s.flip p).pixel q = if q = p ∧ p.onScreen = true then !s.pixel p else s.pixel q := by
  by_cases hp : p.onScreen = true
  · have hlt := place_lt hp
    by_cases same : q = p
    · subst same
      rw [if_pos ⟨rfl, hp⟩]
      simp [flip, pixel, hp, hlt]
    · rw [if_neg (fun both => same both.1)]
      by_cases hq : q.onScreen = true
      · have apart : place p ≠ place q := fun h => same (place_injective hq hp h.symm)
        simp [flip, pixel, hp, hq, apart]
      · rw [pixel_of_not_onScreen (by simpa using hq), pixel_of_not_onScreen (by simpa using hq)]
  · rw [if_neg (fun both => hp both.2)]
    simp [flip, hp]

/-- A screen is known by its pixels. -/
theorem ext_pixel {s s' : Screen} (h : ∀ p : Spot, p.onScreen = true → s.pixel p = s'.pixel p) :
    s = s' := by
  obtain ⟨pixels⟩ := s
  obtain ⟨pixels'⟩ := s'
  congr 1
  apply Vector.ext
  intro i hi
  have hon : (⟨i % 64, i / 64⟩ : Spot).onScreen = true := by
    rw [onScreen_iff]
    exact ⟨Nat.mod_lt _ (by decide), Nat.div_lt_of_lt_mul hi⟩
  have hplace : place ⟨i % 64, i / 64⟩ = i := Nat.div_add_mod i 64
  simpa [pixel, hon, hplace, hi] using h _ hon

end Screen

end Chip8
