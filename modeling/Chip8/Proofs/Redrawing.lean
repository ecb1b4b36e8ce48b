import Chip8.Proofs.Drawing
import Chip8.Proofs.Effect
import Mathlib.Algebra.BigOperators.Ring.Finset

/-!
# Drawing again

A drawing flips pixels. So it does not matter in which order sprites are drawn, and what is drawn twice is gone. On a
machine an instruction that draws can be executed twice to bring the screen back, as long as the flag that the first
execution writes is none of its operands.
-/
namespace Chip8

/-- A sprite with the column and the row of its upper left corner. -/
structure Stamp where
  x : UInt8
  y : UInt8
  sprite : List UInt8
deriving DecidableEq, Repr

/-- How often a stamp hits a pixel. -/
def Stamp.hits (d : Stamp) (p : Spot) : Nat := Sprite.hits d.x.toNat d.y.toNat d.sprite p

/-! ## Many drawings -/

namespace Screen

def stamp (s : Screen) (d : Stamp) : Screen := (s.draw d.x d.y d.sprite).screen

def stampAll (s : Screen) (ds : List Stamp) : Screen := ds.foldl stamp s

variable {ds es : List Stamp} {sprite : List UInt8}

theorem decide_add_odd (m n : Nat) :
    decide ((m + n) % 2 = 1) = (decide (m % 2 = 1) ^^ decide (n % 2 = 1)) := by
  rcases Nat.mod_two_eq_zero_or_one m with hm | hm
  · simp [Nat.add_mod, hm]
  · rcases Nat.mod_two_eq_zero_or_one n with hn | hn
    · simp [Nat.add_mod, hm, hn]
    · simp [Nat.add_mod, hm, hn]

/-- A pixel changes if all stamps together hit it an odd number of times. -/
theorem pixel_stampAll (s : Screen) (ds : List Stamp) (p : Spot) :
    (s.stampAll ds).pixel p =
      (s.pixel p ^^ decide ((ds.map fun d => d.hits p).sum % 2 = 1)) := by
  induction ds generalizing s with
  | nil => simp [stampAll]
  | cons d rest ih =>
    have hrest : s.stampAll (d :: rest) = (s.stamp d).stampAll rest := rfl
    rw [hrest, ih, stamp, pixel_draw, List.map_cons, List.sum_cons, decide_add_odd, Bool.xor_assoc]
    rfl

theorem stampAll_perm (h : ds.Perm es) (s : Screen) : s.stampAll ds = s.stampAll es := by
  apply ext_pixel
  intro p _
  rw [pixel_stampAll, pixel_stampAll, (h.map _).sum_eq]

theorem stampAll_of_even (h : ∀ d, ds.count d % 2 = 0) (s : Screen) : s.stampAll ds = s := by
  apply ext_pixel
  intro p _
  have hsum : 2 ∣ (ds.map fun d => d.hits p).sum := by
    -- Each stamp adds its hits as often as it is in the list.
    rw [Finset.sum_list_map_count]
    exact Finset.dvd_sum fun d _ => Dvd.dvd.mul_right (Nat.dvd_of_mod_eq_zero (h d)) _
  rw [pixel_stampAll, Nat.mod_eq_zero_of_dvd hsum]
  simp

/-! ## One drawing made twice -/

theorem draw_draw (s : Screen) (x y : UInt8) (sprite : List UInt8) :
    ((s.draw x y sprite).screen.draw x y sprite).screen = s := by
  apply ext_pixel
  intro p _
  rw [pixel_draw, pixel_draw, Bool.xor_assoc, Bool.xor_self, Bool.xor_false]

/-- The second drawing collides where the first has lit a pixel. -/
theorem collision_draw_draw_iff (s : Screen) (x y : UInt8) (hlength : sprite.length ≤ 32) :
    ((s.draw x y sprite).screen.draw x y sprite).collision = true ↔
      ∃ row < sprite.length, ∃ column < 8, Sprite.Sets sprite row column ∧
        s.pixel (Sprite.spot x.toNat y.toNat row column) = false := by
  rw [collision_draw_iff_of_length_le _ x y hlength]
  refine exists_congr fun row => and_congr_right fun hrow =>
    exists_congr fun column => and_congr_right fun hcolumn => and_congr_right fun hset => ?_
  have honce : Sprite.hits x.toNat y.toNat sprite (Sprite.spot x.toNat y.toNat row column) = 1 :=
    Nat.le_antisymm (Sprite.hits_le_one _ _ hlength _)
      (Sprite.hits_pos_iff.mpr ⟨row, hrow, column, hcolumn, hset, rfl⟩)
  rw [pixel_draw, honce]
  simp

end Screen

/-! ## On a machine -/

namespace Machine

/-- Machine `u` has the screen of `m` again, and its flag tells whether a bit of the sprite that `m` draws falls on a pixel
that is off in `m`. -/
structure Undrawn (m : Machine) (x y n : UInt8) (u : Machine) : Prop where
  screen : u.screen = m.screen
  flag_iff : u.registers.flag = 1 ↔ ∃ row < n.toNat, ∃ column < 8,
    Sprite.Sets (m.bytesAtIndex n.toNat) row column ∧
      m.screen.pixel
        (Sprite.spot (m.registers.get x).toNat (m.registers.get y).toNat row column) = false

variable {m m' : Machine} {x y n value : UInt8}

/-- If the flag is none of the operands, the same sprite is drawn at the same place whatever the flag is. -/
theorem drawing_of_setFlag (hx : x.toNat < 15) (hy : y.toNat < 15) (hmemory : m'.memory = m.memory)
    (hregisters : m'.registers = m.registers.setFlag value) :
    m'.drawing x y n =
      m'.screen.draw (m.registers.get x) (m.registers.get y) (m.bytesAtIndex n.toNat) := by
  have hsprite : m'.bytesAtIndex n.toNat = m.bytesAtIndex n.toNat := by
    rw [bytesAtIndex, hmemory, hregisters]
    rfl
  rw [drawing, hsprite, hregisters, Registers.get_setFlag_of_lt _ _ hx,
    Registers.get_setFlag_of_lt _ _ hy]

end Machine

namespace Session

variable {s t r : Session} {x y n : UInt8} {here again : Address}

/-- Whether a sprite can be drawn depends on the index alone. -/
theorem execute_draw_done_iff : (∃ t, s.execute (.draw x y n) here = .done t) ↔
    s.machine.registers.index.toNat + n.toNat ≤ Memory.size := by
  have hsteady : ¬ s.Traps (.draw x y n) := fun h => Bool.false_ne_true h.1
  rw [execute_done_iff, Machine.refusal_of_reach rfl, Machine.overreach?]
  simp [hsteady]

theorem toUInt8_eq_one_iff (b : Bool) : b.toUInt8 = 1 ↔ b = true := by
  cases b with
  | false => decide
  | true => decide

/-- What comes between the two executions may move the program counter and more. -/
theorem execute_draw_again (hx : x.toNat < 15) (hy : y.toNat < 15) (hn : n.toNat < 16)
    (h : s.execute (.draw x y n) here = .done t) (hmemory : r.machine.memory = t.machine.memory)
    (hregisters : r.machine.registers = t.machine.registers)
    (hscreen : r.machine.screen = t.machine.screen) :
    ∃ u, r.execute (.draw x y n) again = .done u ∧ s.machine.Undrawn x y n u.machine := by
  have hfits := execute_draw_done_iff.mp ⟨t, h⟩
  obtain rfl := execute_done_eq h
  have hlength := s.machine.length_bytesAtIndex n.toNat
  have hdrawing : r.machine.drawing x y n =
      (s.machine.drawing x y n).screen.draw (s.machine.registers.get x) (s.machine.registers.get y)
        (s.machine.bytesAtIndex n.toNat) := by
    have hsame : r.machine.memory = s.machine.memory := hmemory
    have hflag : r.machine.registers =
        s.machine.registers.setFlag (s.machine.drawing x y n).collision.toUInt8 := hregisters
    rw [Machine.drawing_of_setFlag hx hy hsame hflag, hscreen]
    rfl
  obtain ⟨u, hu⟩ : ∃ u, r.execute (.draw x y n) again = .done u := by
    rw [execute_draw_done_iff, hregisters]
    exact hfits
  obtain rfl := execute_done_eq hu
  refine ⟨_, hu, ?_, ?_⟩
  · change (r.machine.drawing x y n).screen = s.machine.screen
    rw [hdrawing]
    exact Screen.draw_draw _ _ _ _
  · have hcollision := Screen.collision_draw_draw_iff s.machine.screen (s.machine.registers.get x)
      (s.machine.registers.get y) (by rw [hlength]; omega)
    change (r.machine.registers.setFlag (r.machine.drawing x y n).collision.toUInt8).flag = 1 ↔ _
    rw [hlength] at hcollision
    rw [Registers.flag_setFlag, toUInt8_eq_one_iff, hdrawing]
    exact hcollision

/-- Two steps in a row that fetch the same drawing. -/
theorem step_draw_again {w w' : Word} (hx : x.toNat < 15) (hy : y.toNat < 15)
    (hfetch : s.machine.fetch = .ok (w, .draw x y n)) (h : s.step = .done t)
    (hagain : t.machine.fetch = .ok (w', .draw x y n)) :
    ∃ u, t.step = .done u ∧ s.machine.Undrawn x y n u.machine := by
  have hn : n.toNat < 16 := (Instruction.decode_inRange (Machine.fetch_eq_ok_iff.mp hfetch).2.2).2.2
  obtain ⟨v, i, a, hv, ha, rfl⟩ := step_done h
  cases hfetch.symm.trans hv
  obtain ⟨u, hu, hundrawn⟩ : ∃ u, a.count.ahead.execute (.draw x y n) a.count.machine.pc = .done u ∧
      s.ahead.machine.Undrawn x y n u.machine := execute_draw_again hx hy hn ha rfl rfl rfl
  refine ⟨u.count, ?_, hundrawn.screen, hundrawn.flag_iff⟩
  rw [step_of_ok hagain, hu]

/-- Sprites drawn in another order leave the same screen, and if each is drawn an even number of times they leave the screen
as it was. So an instruction that draws, executed a second time or fetched by two steps in a row, brings the screen back
if the flag is none of its operands, and then the flag tells whether the first drawing lit a pixel. -/
theorem drawings_commute_and_cancel :
    (∀ (s : Screen) (ds es : List Stamp), ds.Perm es → s.stampAll ds = s.stampAll es) ∧
    (∀ (s : Screen) (ds : List Stamp), (∀ d, ds.count d % 2 = 0) → s.stampAll ds = s) ∧
    ∀ (s t : Session) (x y n : UInt8), x.toNat < 15 → y.toNat < 15 → n.toNat < 16 →
      (∀ here again, s.execute (.draw x y n) here = .done t →
        ∃ u, t.execute (.draw x y n) again = .done u ∧ s.machine.Undrawn x y n u.machine) ∧
      ∀ w w', s.machine.fetch = .ok (w, .draw x y n) → s.step = .done t →
        t.machine.fetch = .ok (w', .draw x y n) →
        ∃ u, t.step = .done u ∧ s.machine.Undrawn x y n u.machine := by
  refine ⟨fun s ds es h => Screen.stampAll_perm h s, fun s ds h => Screen.stampAll_of_even h s, ?_⟩
  intro s t x y n hx hy hn
  constructor
  · intro here again h
    exact execute_draw_again hx hy hn h rfl rfl rfl
  · intro w w' hfetch h hagain
    exact step_draw_again hx hy hfetch h hagain

/-- Two sprites that overlap, one over the corner of the screen and one of 33 rows. -/
def overlappingStamps : List Stamp := [⟨62, 31, [0xF0, 0x80]⟩, ⟨0, 0, List.replicate 33 0x80⟩]

def glyphTwice : List UInt8 := [0xD1, 0x25, 0xD1, 0x25]

/-- A session that is about to draw a glyph over the corner of an empty screen, and to draw it again. -/
def glyphDrawer : Session where
  machine := { Machine.ofSeed 7 with
    memory := Memory.fresh.putAll 0x200 glyphTwice
    registers := ((Registers.fresh.set 1 62).set 2 31).setIndex 0x50 }
  keypad := Keypad.untouched

theorem glyphDrawer_fetch : glyphDrawer.machine.fetch = .ok (0xD125, .draw 1 2 5) :=
  Machine.fetch_of_program Memory.fresh glyphTwice 0 rfl rfl (by decide) (by decide) (by decide)
    (by decide)

/-- The upper left pixel of the glyph was off. -/
theorem flag_of_undrawn {u : Machine} (h : glyphDrawer.machine.Undrawn 1 2 5 u) :
    u.screen = Screen.blank ∧ u.registers.flag = 1 :=
  ⟨h.screen, h.flag_iff.mpr ⟨0, by decide, 0, by decide, by decide +kernel, Screen.pixel_blank _⟩⟩

/-- The sprites come out the same in reverse, and the glyph is gone once it is drawn again. -/
theorem drawings_commute_and_cancel_overlapping :
    overlappingStamps.Perm overlappingStamps.reverse ∧
    Screen.blank.stampAll overlappingStamps = Screen.blank.stampAll overlappingStamps.reverse ∧
    Screen.blank.stampAll (overlappingStamps ++ overlappingStamps) = Screen.blank ∧
    (∃ t u, glyphDrawer.execute (.draw 1 2 5) 0x200 = .done t ∧
      t.execute (.draw 1 2 5) 0x300 = .done u ∧
      u.machine.screen = Screen.blank ∧ u.machine.registers.flag = 1) ∧
    ∃ t u, glyphDrawer.step = .done t ∧ t.step = .done u ∧
      u.machine.screen = Screen.blank ∧ u.machine.registers.flag = 1 := by
  have hperm : overlappingStamps.Perm overlappingStamps.reverse :=
    (List.reverse_perm overlappingStamps).symm
  have heven : ∀ d, (overlappingStamps ++ overlappingStamps).count d % 2 = 0 := by
    intro d
    rw [List.count_append]
    omega
  obtain ⟨horder, hcancel, hmachine⟩ := drawings_commute_and_cancel
  refine ⟨hperm, horder _ _ _ hperm, hcancel _ _ heven, ?_, ?_⟩
  · obtain ⟨t, ht⟩ : ∃ t, glyphDrawer.execute (.draw 1 2 5) 0x200 = .done t :=
      execute_draw_done_iff.mpr (by decide)
    obtain ⟨u, hu, hundrawn⟩ :=
      (hmachine glyphDrawer t 1 2 5 (by decide) (by decide) (by decide)).1 0x200 0x300 ht
    exact ⟨t, u, ht, hu, flag_of_undrawn hundrawn⟩
  · obtain ⟨t, ht⟩ := step_done_iff.mpr (Machine.fault_of_fetched glyphDrawer_fetch)
    have hagain : t.machine.fetch = .ok (0xD125, .draw 1 2 5) := by
      obtain ⟨w, i, hfetch, rfl⟩ := step_done_eq ht
      cases glyphDrawer_fetch.symm.trans hfetch
      exact Machine.fetch_of_program Memory.fresh glyphTwice 2 rfl (by decide +kernel) (by decide)
        (by decide) (by decide) (by decide)
    obtain ⟨u, hu, hundrawn⟩ := (hmachine glyphDrawer t 1 2 5 (by decide) (by decide)
      (by decide)).2 _ _ glyphDrawer_fetch ht hagain
    exact ⟨t, u, ht, hu, flag_of_undrawn hundrawn⟩

end Session

end Chip8
