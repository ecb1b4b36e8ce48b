import Chip8.Proofs.Drawing

/-!
# Counting lit pixels

Every flip lights a pixel or puts one out, so the number of lit pixels tells how many flips of a drawing found their pixel
lit. A drawing that lights a pixel for each set bit of the sprite has met none.
-/
namespace Chip8

/-! ## The set bits of a sprite -/

namespace Sprite

/-- The set bits of a sprite, as pairs of a row and a column. -/
def bits (sprite : List UInt8) : Finset (Nat × Nat) :=
  (Finset.range sprite.length ×ˢ Finset.range 8).filter fun q => Sets sprite q.1 q.2

theorem length_columns (b : UInt8) :
    (columns b).length =
      ((Finset.range 8).filter fun column => b &&& (0x80 >>> UInt8.ofNat column) ≠ 0).card := by
  have hcount := count_columns b (fun _ => ⟨0, 0⟩) ⟨0, 0⟩
  simpa [List.map_const'] using hcount

theorem card_bits_cons (b : UInt8) (sprite : List UInt8) :
    (bits (b :: sprite)).card = (columns b).length + (bits sprite).card := by
  rw [bits, bits, Finset.card_filter, Finset.card_filter, Finset.sum_product, Finset.sum_product,
    List.length_cons, Finset.sum_range_succ', length_columns, Finset.card_filter, Nat.add_comm]
  rfl

/-- A sprite has a spot for each set bit. -/
theorem length_spots (x y : Nat) (sprite : List UInt8) :
    (spots x y sprite).length = (bits sprite).card := by
  induction sprite generalizing y with
  | nil => rfl
  | cons b sprite ih => rw [spots, List.length_append, List.length_map, ih, card_bits_cons]

end Sprite

/-! ## Flips -/

namespace Screen

variable {p : Spot} {ps : List Spot}

/-- The flips that find their pixel lit, by their number. Each looks at the screen that the flips before it have left. -/
def foundLit (s : Screen) (ps : List Spot) : Finset Nat :=
  (Finset.range ps.length).filter fun k => ps[k]?.any (s.flipAll (ps.take k)).screen.pixel

theorem card_foundLit_concat (s : Screen) (ps : List Spot) (q : Spot) :
    (s.foundLit (ps ++ [q])).card =
      (s.foundLit ps).card + ((s.flipAll ps).screen.pixel q).toNat := by
  have hlength : (ps ++ [q]).length = ps.length + 1 := List.length_append
  -- What an earlier flip finds does not depend on a flip behind it.
  have hearlier : ∀ k ∈ Finset.range ps.length,
      (if (ps ++ [q])[k]?.any (s.flipAll ((ps ++ [q]).take k)).screen.pixel = true then 1 else 0) =
        if ps[k]?.any (s.flipAll (ps.take k)).screen.pixel = true then 1 else 0 := by
    intro k hk
    have hlt := Finset.mem_range.mp hk
    rw [List.getElem?_append_left hlt, List.take_append_of_le_length (Nat.le_of_lt hlt)]
  have hlast : (if (ps ++ [q])[ps.length]?.any
        (s.flipAll ((ps ++ [q]).take ps.length)).screen.pixel = true then 1 else 0) =
      ((s.flipAll ps).screen.pixel q).toNat := by
    rw [List.getElem?_concat_length, List.take_left, Option.any_some, Bool.toNat, Bool.cond_eq_ite]
  rw [foundLit, foundLit, Finset.card_filter, Finset.card_filter, hlength, Finset.sum_range_succ,
    Finset.sum_congr rfl hearlier, hlast]

theorem hits_flipAll (s : Screen) (ps : List Spot) :
    (s.flipAll ps).hits = (s.foundLit ps).card := by
  induction ps using List.reverseRecOn with
  | nil => rfl
  | append_singleton ps q ih =>
    rw [flipAll_concat, card_foundLit_concat, ← ih]
    rfl

/-- A flip takes a lit pixel away or adds one. -/
theorem lit_flip (s : Screen) (h : p.onScreen = true) :
    (s.flip p).lit + 2 * (s.pixel p).toNat = s.lit + 1 := by
  have hlt : place p < s.pixels.toList.length := by simpa using place_lt h
  have hpixel : s.pixel p = s.pixels.toList[place p] := by
    simp [pixel, h, place_lt h]
  have hflip : (s.flip p).lit = (s.pixels.toList.set (place p) (!s.pixel p)).count true := by
    simp [flip, h, lit]
  rw [hflip, List.count_set hlt, ← hpixel, lit]
  cases hlit : s.pixel p with
  | false => simp
  | true =>
    have hmem : true ∈ s.pixels.toList := by
      rw [← hlit, hpixel]
      exact List.getElem_mem hlt
    have hpos := List.count_pos_iff.mpr hmem
    change s.pixels.toList.count true - 1 + 0 + 2 * 1 = s.pixels.toList.count true + 1
    omega

theorem lit_flipAll (s : Screen) (hps : ∀ q ∈ ps, q.onScreen = true) :
    (s.flipAll ps).screen.lit + 2 * (s.flipAll ps).hits = s.lit + ps.length := by
  induction ps using List.reverseRecOn with
  | nil => rfl
  | append_singleton ps q ih =>
    have hrest := ih fun q' h' => hps q' (List.mem_append_left _ h')
    have hlast := (s.flipAll ps).screen.lit_flip (hps q (by simp))
    rw [flipAll_concat, Drawing.flip, List.length_append, List.length_singleton]
    dsimp only
    omega

/-- The lit pixels after a drawing and two for each flip that found its pixel lit make the lit pixels before and one for each
set bit. So a drawing collides if it adds fewer lit pixels than it has set bits, and then it is two fewer at least. -/
theorem lit_balance (s : Screen) (x y : UInt8) (sprite : List UInt8) :
    let drawn := s.draw x y sprite
    let set := (Sprite.bits sprite).card
    let found := (s.foundLit (Sprite.spots x.toNat y.toNat sprite)).card
    drawn.screen.lit + 2 * found = s.lit + set ∧
      (drawn.collision = false ↔ drawn.screen.lit = s.lit + set) ∧
      (drawn.collision = true → drawn.screen.lit + 2 ≤ s.lit + set) := by
  intro drawn set found
  have hhits : drawn.hits = found := hits_flipAll s _
  have hbalance : drawn.screen.lit + 2 * found = s.lit + set := by
    have hspots : ∀ p ∈ Sprite.spots x.toNat y.toNat sprite, p.onScreen = true := fun _ =>
      Sprite.onScreen_of_mem_spots
    have hall := lit_flipAll s hspots
    rw [Sprite.length_spots] at hall
    rw [← hhits]
    exact hall
  have hcollision : drawn.collision = true ↔ found ≠ 0 := by
    rw [Drawing.collision, hhits, bne_iff_ne]
  refine ⟨hbalance, ?_, fun h => ?_⟩
  · rw [← Bool.not_eq_true, hcollision]
    omega
  · have hfound := hcollision.mp h
    omega

/-- 33 rows of one pixel come back to where they began, and put out what they have lit there. -/
theorem lit_balance_put_out :
    (blank.draw 0 0 (List.replicate 33 0x80)).collision = true ∧
      (blank.draw 0 0 (List.replicate 33 0x80)).screen.lit + 2 ≤ 33 := by
  obtain ⟨-, -, hcollides⟩ := lit_balance blank 0 0 (List.replicate 33 0x80)
  have hcollision : (blank.draw 0 0 (List.replicate 33 0x80)).collision = true :=
    (collision_draw_iff _ _ _ _).mpr ⟨⟨0, 0⟩, Or.inl (by decide +kernel)⟩
  have hblank : blank.lit = 0 := by
    rw [lit, blank, Vector.toList_replicate, List.count_replicate]
    rfl
  have hset : (Sprite.bits (List.replicate 33 0x80)).card = 33 := by decide +kernel
  have hlit := hcollides hcollision
  rw [hblank, hset] at hlit
  exact ⟨hcollision, hlit⟩

end Screen

end Chip8
