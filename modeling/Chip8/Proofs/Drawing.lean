import Chip8.Screen.Sprite
import Mathlib.Algebra.BigOperators.Group.Finset.Piecewise
import Mathlib.Algebra.BigOperators.Group.Finset.Sigma
import Mathlib.Data.List.Induction
import Mathlib.Data.Nat.Bitwise
import Mathlib.Data.Nat.Count

/-!
# What a drawn sprite leaves

A drawing flips spots one after the other and looks at the screen as far as it has come. What it leaves depends on the
screen before and on how often each pixel is hit: a pixel changes if that is odd, and there is a collision if a pixel is
hit twice, or once and was lit. A sprite of 32 rows at most hits no pixel twice.
-/
namespace Chip8

namespace Sprite

/-- Whether a bit of a sprite is set. Column 0 is the highest bit. -/
def Sets (sprite : List UInt8) (row column : Nat) : Prop :=
  sprite.getD row 0 &&& (0x80 >>> UInt8.ofNat column) ≠ 0

instance (sprite : List UInt8) (row column : Nat) : Decidable (Sets sprite row column) :=
  inferInstanceAs (Decidable (_ ≠ _))

/-- The spot of a bit of a sprite that has its upper left corner at column `x` and row `y`. -/
def spot (x y row column : Nat) : Spot := ⟨(x + column) % 64, (y + row) % 32⟩

/-- The bits of a sprite that are set and fall on a pixel, as pairs of a row and a column. -/
def landing (x y : Nat) (sprite : List UInt8) (p : Spot) : Finset (Nat × Nat) :=
  (Finset.range sprite.length ×ˢ Finset.range 8).filter fun q =>
    Sets sprite q.1 q.2 ∧ spot x y q.1 q.2 = p

/-- How often a sprite hits a pixel. -/
def hits (x y : Nat) (sprite : List UInt8) (p : Spot) : Nat := (landing x y sprite p).card

end Sprite

/-! ## Flips -/

theorem Drawing.collision_flip (d : Drawing) (p : Spot) :
    (d.flip p).collision = (d.collision || d.screen.pixel p) := by
  unfold collision flip
  cases d.screen.pixel p with
  | true => simp
  | false => simp

namespace Screen

variable {ps : List Spot}

theorem flipAll_concat (s : Screen) (ps : List Spot) (q : Spot) :
    s.flipAll (ps ++ [q]) = (s.flipAll ps).flip q := by
  rw [flipAll, List.foldl_append]
  rfl

theorem count_concat (ps : List Spot) (p q : Spot) :
    (ps ++ [q]).count p = ps.count p + if p = q then 1 else 0 := by
  rw [List.count_append, List.count_singleton]
  by_cases h : p = q
  · simp [h]
  · simp [h, Ne.symm h]

/-- A pixel changes if it is flipped an odd number of times. -/
theorem pixel_flipAll (s : Screen) (hps : ∀ q ∈ ps, q.onScreen = true) (p : Spot) :
    (s.flipAll ps).screen.pixel p = (s.pixel p ^^ decide (ps.count p % 2 = 1)) := by
  induction ps using List.reverseRecOn with
  | nil => simp [flipAll]
  | append_singleton ps q ih =>
    have hq : q.onScreen = true := hps q (by simp)
    have hrest := ih fun q' h' => hps q' (List.mem_append_left _ h')
    rw [flipAll_concat, Drawing.flip, pixel_flip, count_concat]
    by_cases h : p = q
    · subst h
      have hparity : decide ((ps.count p + 1) % 2 = 1) = !decide (ps.count p % 2 = 1) := by
        rw [← decide_not, decide_eq_decide]
        omega
      rw [if_pos ⟨rfl, hq⟩, if_pos rfl, hrest, hparity, Bool.xor_not]
    · rw [if_neg fun both => h both.1, if_neg h, hrest, Nat.add_zero]

/-- After `n` flips of a pixel the next one finds it lit if it was lit at first and `n` is even, or was not and `n` is odd.
With that, some flip has found it lit as soon as there were two, or one and the pixel was lit at first. -/
theorem foundLit_succ_iff (n : Nat) (lit : Bool) :
    2 ≤ n + 1 ∨ (1 ≤ n + 1 ∧ lit = true) ↔
      (2 ≤ n ∨ (1 ≤ n ∧ lit = true)) ∨ (lit ^^ decide (n % 2 = 1)) = true := by
  cases lit with
  | true =>
    simp only [Bool.true_xor, Bool.not_eq_true', decide_eq_false_iff_not, and_true]
    omega
  | false =>
    simp only [Bool.false_xor, decide_eq_true_eq, Bool.false_eq_true, and_false, or_false]
    omega

/-- There is a collision if a pixel is flipped twice, or is lit before and flipped. -/
theorem collision_flipAll_iff (s : Screen) (hps : ∀ q ∈ ps, q.onScreen = true) :
    (s.flipAll ps).collision = true ↔
      ∃ p, 2 ≤ ps.count p ∨ (1 ≤ ps.count p ∧ s.pixel p = true) := by
  -- From the last flip, which looks at the screen that all flips before it have left.
  induction ps using List.reverseRecOn with
  | nil => simp [flipAll, Drawing.collision]
  | append_singleton ps q ih =>
    have hrest := fun q' h' => hps q' (List.mem_append_left [q] h')
    have hlast := foundLit_succ_iff (ps.count q) (s.pixel q)
    rw [flipAll_concat, Drawing.collision_flip, Bool.or_eq_true, ih hrest, s.pixel_flipAll hrest q]
    constructor
    · rintro (⟨p, hp⟩ | hlit)
      · refine ⟨p, ?_⟩
        have hle : ps.count p ≤ (ps ++ [q]).count p := by
          rw [count_concat]
          exact Nat.le_add_right _ _
        exact hp.imp (fun h => Nat.le_trans h hle) fun h => ⟨Nat.le_trans h.1 hle, h.2⟩
      · refine ⟨q, ?_⟩
        rw [count_concat, if_pos rfl]
        exact hlast.mpr (Or.inr hlit)
    · rintro ⟨p, hp⟩
      rw [count_concat] at hp
      by_cases h : p = q
      · subst h
        rw [if_pos rfl] at hp
        exact (hlast.mp hp).imp_left fun hearlier => ⟨p, hearlier⟩
      · rw [if_neg h] at hp
        exact Or.inl ⟨p, hp⟩

end Screen

/-! ## The spots of a sprite -/

namespace Sprite

/-- The mask of a column has the one bit set that the column is. -/
theorem toNat_mask {column : Nat} (hcolumn : column < 8) :
    (0x80 >>> UInt8.ofNat column : UInt8).toNat = 2 ^ (7 - column) := by
  revert column
  decide

theorem and_mask_ne_zero_iff (b : UInt8) {column : Nat} (hcolumn : column < 8) :
    b &&& (0x80 >>> UInt8.ofNat column) ≠ 0 ↔ b.toNat.testBit (7 - column) = true := by
  rw [ne_eq, ← UInt8.toNat_inj, UInt8.toNat_and, toNat_mask hcolumn, Nat.and_two_pow]
  cases b.toNat.testBit (7 - column) with
  | true => simp
  | false => simp

/-- The columns of a row, counted by the spot they fall on. -/
theorem count_columns (b : UInt8) (f : Nat → Spot) (p : Spot) :
    ((columns b).map f).count p
      = ((Finset.range 8).filter fun column =>
          b &&& (0x80 >>> UInt8.ofNat column) ≠ 0 ∧ f column = p).card := by
  rw [← Nat.count_eq_card_filter_range, Nat.count, columns, List.count, List.countP_map,
    List.countP_filter]
  refine List.countP_congr fun column hcolumn => ?_
  rw [decide_eq_true_eq, and_mask_ne_zero_iff b (List.mem_range.mp hcolumn), Bool.and_eq_true,
    Function.comp_apply, beq_iff_eq, and_comm]

/-- The hits of a sprite, row by row. -/
theorem hits_eq_sum (x y : Nat) (sprite : List UInt8) (p : Spot) :
    hits x y sprite p = ∑ row ∈ Finset.range sprite.length,
      ((Finset.range 8).filter fun column =>
        Sets sprite row column ∧ spot x y row column = p).card := by
  simp only [hits, landing, Finset.card_filter, Finset.sum_product]

/-- The spots of a sprite list a pixel as often as the sprite hits it. -/
theorem count_spots (x y : Nat) (sprite : List UInt8) (p : Spot) :
    (spots x y sprite).count p = hits x y sprite p := by
  induction sprite generalizing y with
  | nil => rfl
  | cons b sprite ih =>
    have hrow (row column : Nat) : spot x y (row + 1) column = spot x (y + 1) row column := by
      rw [spot, spot, Nat.add_right_comm, Nat.add_assoc]
    -- Row 0 is taken off the sum. The rows below it are a sprite that starts one row further down.
    rw [spots, List.count_append, ih (y + 1), hits_eq_sum, hits_eq_sum, List.length_cons,
      Finset.sum_range_succ', count_columns, Nat.add_comm]
    simp only [hrow]
    rfl

theorem mem_landing {x y : Nat} {sprite : List UInt8} {p : Spot} {row column : Nat} :
    (row, column) ∈ landing x y sprite p ↔
      (row < sprite.length ∧ column < 8) ∧ Sets sprite row column ∧ spot x y row column = p := by
  rw [landing, Finset.mem_filter, Finset.mem_product, Finset.mem_range, Finset.mem_range]

theorem hits_pos_iff {x y : Nat} {sprite : List UInt8} {p : Spot} :
    1 ≤ hits x y sprite p ↔ ∃ row < sprite.length, ∃ column < 8,
      Sets sprite row column ∧ spot x y row column = p := by
  constructor
  · intro h
    obtain ⟨⟨row, column⟩, hmem⟩ := Finset.card_pos.mp h
    obtain ⟨⟨hrow, hcolumn⟩, hset, hspot⟩ := mem_landing.mp hmem
    exact ⟨row, hrow, column, hcolumn, hset, hspot⟩
  · rintro ⟨row, hrow, column, hcolumn, hset, hspot⟩
    exact Finset.card_pos.mpr ⟨(row, column), mem_landing.mpr ⟨⟨hrow, hcolumn⟩, hset, hspot⟩⟩

/-- Two bits of at most 32 rows that fall on one pixel are one bit: they are less than 64 columns and less than 32 rows
apart. -/
theorem hits_le_one (x y : Nat) {sprite : List UInt8} (hlength : sprite.length ≤ 32) (p : Spot) :
    hits x y sprite p ≤ 1 := by
  refine Finset.card_le_one.mpr ?_
  rintro ⟨row, column⟩ hone ⟨row', column'⟩ htwo
  obtain ⟨⟨hrow, hcolumn⟩, -, hspot⟩ := mem_landing.mp hone
  obtain ⟨⟨hrow', hcolumn'⟩, -, hspot'⟩ := mem_landing.mp htwo
  have hsame := hspot.trans hspot'.symm
  rw [spot, spot, Spot.mk.injEq] at hsame
  obtain ⟨hx, hy⟩ := hsame
  rw [show row = row' by omega, show column = column' by omega]

end Sprite

/-! ## The law of a drawing -/

namespace Screen

variable (s : Screen) (x y : UInt8) (sprite : List UInt8)

theorem pixel_draw (p : Spot) :
    (s.draw x y sprite).screen.pixel p
      = (s.pixel p ^^ decide (Sprite.hits x.toNat y.toNat sprite p % 2 = 1)) := by
  rw [draw, pixel_flipAll s (fun _ => Sprite.onScreen_of_mem_spots), Sprite.count_spots]

theorem collision_draw_iff :
    (s.draw x y sprite).collision = true ↔
      ∃ p, 2 ≤ Sprite.hits x.toNat y.toNat sprite p ∨
        (1 ≤ Sprite.hits x.toNat y.toNat sprite p ∧ s.pixel p = true) := by
  rw [draw, collision_flipAll_iff s (fun _ => Sprite.onScreen_of_mem_spots)]
  simp only [Sprite.count_spots]

/-- At most 32 rows collide where a bit falls on a lit pixel. -/
theorem collision_draw_iff_of_length_le {sprite : List UInt8} (hlength : sprite.length ≤ 32) :
    (s.draw x y sprite).collision = true ↔
      ∃ row < sprite.length, ∃ column < 8,
        Sprite.Sets sprite row column ∧
          s.pixel (Sprite.spot x.toNat y.toNat row column) = true := by
  rw [collision_draw_iff]
  constructor
  · rintro ⟨p, htwo | ⟨hone, hlit⟩⟩
    · exact absurd (Sprite.hits_le_one _ _ hlength p) (Nat.not_le.mpr htwo)
    · obtain ⟨row, hrow, column, hcolumn, hset, rfl⟩ := Sprite.hits_pos_iff.mp hone
      exact ⟨row, hrow, column, hcolumn, hset, hlit⟩
  · rintro ⟨row, hrow, column, hcolumn, hset, hlit⟩
    exact ⟨_, Or.inr ⟨Sprite.hits_pos_iff.mpr ⟨row, hrow, column, hcolumn, hset, rfl⟩, hlit⟩⟩

/-- What a drawing leaves, for a sprite of any length anywhere: a pixel changes if it is hit an odd number of times, off
the screen none is lit, and the drawing collides if a pixel is hit twice, or hit and lit before. A sprite of at most 32
rows collides if one of its bits falls on a lit pixel. -/
theorem draw_law :
    (∀ px < 64, ∀ py < 32, (s.draw x y sprite).screen.pixel ⟨px, py⟩
      = (s.pixel ⟨px, py⟩ ^^ decide (Sprite.hits x.toNat y.toNat sprite ⟨px, py⟩ % 2 = 1)))
    ∧ (∀ px py, 64 ≤ px ∨ 32 ≤ py → (s.draw x y sprite).screen.pixel ⟨px, py⟩ = false)
    ∧ ((s.draw x y sprite).collision = true ↔
        ∃ px < 64, ∃ py < 32, 2 ≤ Sprite.hits x.toNat y.toNat sprite ⟨px, py⟩ ∨
          (1 ≤ Sprite.hits x.toNat y.toNat sprite ⟨px, py⟩ ∧ s.pixel ⟨px, py⟩ = true))
    ∧ (sprite.length ≤ 32 → ((s.draw x y sprite).collision = true ↔
        ∃ row < sprite.length, ∃ column < 8, Sprite.Sets sprite row column ∧
          s.pixel (Sprite.spot x.toNat y.toNat row column) = true)) := by
  refine ⟨fun px _ py _ => pixel_draw s x y sprite ⟨px, py⟩, fun px py hoff => ?_, ?_,
    collision_draw_iff_of_length_le s x y⟩
  · refine pixel_of_not_onScreen ?_
    rw [← Bool.not_eq_true, onScreen_iff]
    change ¬(px < 64 ∧ py < 32)
    omega
  · rw [collision_draw_iff]
    constructor
    · rintro ⟨p, hp⟩
      have hone : 1 ≤ Sprite.hits x.toNat y.toNat sprite p := by omega
      obtain ⟨row, _, column, _, _, rfl⟩ := Sprite.hits_pos_iff.mp hone
      exact ⟨_, Nat.mod_lt _ (by decide), _, Nat.mod_lt _ (by decide), hp⟩
    · rintro ⟨px, _, py, _, hp⟩
      exact ⟨⟨px, py⟩, hp⟩

/-- Two rows over the corner of an empty screen, and 33 rows that come back to where they began. -/
theorem draw_law_corner :
    (blank.draw 62 31 [0xF0, 0x80]).screen.pixel ⟨0, 31⟩ = true
    ∧ (blank.draw 62 31 [0xF0, 0x80]).screen.pixel ⟨64, 31⟩ = false
    ∧ (blank.draw 62 31 [0xF0, 0x80]).collision = false
    ∧ (blank.draw 0 0 (List.replicate 33 0x80)).screen.pixel ⟨0, 0⟩ = false
    ∧ (blank.draw 0 0 (List.replicate 33 0x80)).collision = true := by
  obtain ⟨hpixel, hoff, -, hcollision⟩ := draw_law blank 62 31 [0xF0, 0x80]
  obtain ⟨hpixel', -, hcollision', -⟩ := draw_law blank 0 0 (List.replicate 33 0x80)
  refine ⟨?_, hoff 64 31 (by decide), ?_, ?_, ?_⟩
  · rw [hpixel 0 (by decide) 31 (by decide), pixel_blank]
    decide +kernel
  · rw [Bool.eq_false_iff, ne_eq, hcollision (by decide)]
    rintro ⟨row, _, column, _, _, hlit⟩
    rw [pixel_blank] at hlit
    cases hlit
  · rw [hpixel' 0 (by decide) 0 (by decide), pixel_blank]
    decide +kernel
  · exact hcollision'.mpr ⟨0, by decide, 0, by decide, Or.inl (by decide +kernel)⟩

end Screen

end Chip8
