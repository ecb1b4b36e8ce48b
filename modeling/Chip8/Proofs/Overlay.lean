import Chip8.Proofs.MemoryHistory

/-!
# Images over images

Images are loaded one over the other at the same address. Each byte is that of the last image that was long enough to
cover it, so the end of a longer image sticks out from under a shorter one. An image that does not fit changes nothing,
and a load touches nothing but memory and the program counter.
-/
namespace Chip8

namespace Image

/-- Whether an image is not refused. -/
def Fits (image : Image) : Prop := image.length ≤ 3584

instance (image : Image) : Decidable image.Fits := inferInstanceAs (Decidable (_ ≤ _))

/-- Byte `j` of the last of the images that fits and is longer than `j`. -/
def topByte? (images : List Image) (j : Nat) : Option UInt8 :=
  (images.filter fun image => image.Fits).reverse.findSome? fun image => image.bytes[j]?

end Image

theorem Image.topByte?_cons (image : Image) (rest : List Image) (j : Nat) :
    topByte? (image :: rest) j =
      (topByte? rest j).or (if image.Fits then image.bytes[j]? else none) := by
  by_cases h : image.Fits
  · have hkeep : (image :: rest).filter (fun i => i.Fits) =
        image :: rest.filter fun i => i.Fits := List.filter_cons_of_pos (decide_eq_true h)
    rw [topByte?, hkeep, List.reverse_cons, List.findSome?_append, if_pos h,
      List.findSome?_singleton]
    rfl
  · have hskip : (image :: rest).filter (fun i => i.Fits) = rest.filter fun i => i.Fits :=
      List.filter_cons_of_neg (by simp [h])
    rw [topByte?, hskip, if_neg h, Option.or_none]
    rfl

namespace Memory

theorem put?_load (image : Image) (j : Nat) :
    (Access.load image).put? (0x200 + j) = if image.Fits then image.bytes[j]? else none := by
  have hoffset : 0x200 + j - (Access.load image).address = j := Nat.add_sub_cancel_left 0x200 j
  have hfits : (Access.load image).Fits ∧ (Access.load image).address ≤ 0x200 + j ↔
      image.Fits := by
    rw [load_fits_iff]
    exact and_iff_left (Nat.le_add_right 0x200 j)
  rw [Access.put?, hoffset]
  simp only [hfits]
  rfl

theorem lastPut?_loads (images : List Image) (j : Nat) :
    lastPut? (images.map .load) (0x200 + j) = Image.topByte? images j := by
  induction images with
  | nil => rfl
  | cons image rest ih =>
    rw [List.map_cons, lastPut?_cons, ih, put?_load, Image.topByte?_cons]

/-- No image reaches below the address that images are loaded at. -/
theorem lastPut?_loads_below (images : List Image) {here : Nat} (h : here < 0x200) :
    lastPut? (images.map .load) here = none := by
  induction images with
  | nil => rfl
  | cons image rest ih =>
    rw [List.map_cons, lastPut?_cons, ih, Access.put?,
      if_neg fun both => Nat.not_le_of_lt h both.2]
    rfl

/-- Bytes that are put over others hide them if they are as many. -/
theorem putAll_putAll (m : Memory) (address : Nat) {first second : List UInt8}
    (h : first.length ≤ second.length) :
    (m.putAll address first).putAll address second = m.putAll address second := by
  apply ext_byte
  intro here hhere
  rw [byte_putAll, byte_putAll, byte_putAll]
  by_cases hin : address ≤ here ∧ here < address + second.length ∧ here < size
  · rw [if_pos hin, if_pos hin]
  · rw [if_neg hin, if_neg hin, if_neg (by omega)]

end Memory

namespace Machine

/-- The machine after several loads. One that is refused counts as one. -/
def loadAll (m : Machine) (images : List Image) : Machine :=
  images.foldl (fun m image => (m.load image).state) m

variable {m : Machine} {image p q : Image}

/-! ## One load -/

theorem load_of_fits (m : Machine) (h : image.Fits) :
    m.load image = .done { m with
      memory := m.memory.putAll Image.base.toNat image.bytes
      pc := Image.base } := load_of_le m h

theorem load_of_not_fits (m : Machine) (h : ¬ image.Fits) :
    m.load image = .faulted (.programTooLarge image.length 3584) m :=
  load_of_lt m (Nat.lt_of_not_le h)

theorem load_done_iff : (∃ t, m.load image = .done t) ↔ image.Fits := by
  by_cases h : image.Fits
  · exact iff_of_true ⟨_, load_of_fits m h⟩ h
  · refine iff_of_false (fun ⟨t, ht⟩ => ?_) h
    rw [load_of_not_fits m h] at ht
    cases ht

/-- What a load does to memory and the program counter. -/
theorem load_state (m : Machine) (image : Image) :
    (m.load image).state = { m with
      memory := m.memory.after (.load image)
      pc := if image.Fits then Image.base else m.pc } := by
  by_cases h : image.Fits
  · have hfits : (Memory.Access.load image).Fits := Memory.load_fits_iff.mpr h
    rw [load_of_fits m h, if_pos h, Memory.after_of_fits _ hfits]
    rfl
  · have hfits : ¬ (Memory.Access.load image).Fits := fun hle => h (Memory.load_fits_iff.mp hle)
    rw [load_of_not_fits m h, if_neg h, Memory.after_of_not_fits _ hfits]
    rfl

/-! ## Several loads -/

theorem loadAll_eq (m : Machine) (images : List Image) :
    m.loadAll images = { m with
      memory := m.memory.afterAll (images.map .load)
      pc := if ∃ image ∈ images, image.Fits then Image.base else m.pc } := by
  induction images generalizing m with
  | nil => simp [loadAll, Memory.afterAll]
  | cons image rest ih =>
    have hrest : m.loadAll (image :: rest) = (m.load image).state.loadAll rest := rfl
    have hpc : (if ∃ i ∈ rest, i.Fits then Image.base
          else if image.Fits then Image.base else m.pc) =
        if ∃ i ∈ image :: rest, i.Fits then Image.base else m.pc := by
      simp only [List.mem_cons, exists_eq_or_imp]
      by_cases h : image.Fits
      · rw [if_pos h, if_pos (Or.inl h), ite_self]
      · simp only [h, false_or, ↓reduceIte]
    rw [hrest, ih, load_state, ← hpc]
    rfl

theorem byte_loadAll (m : Machine) (images : List Image) (j : Nat) :
    (m.loadAll images).memory.byte (0x200 + j) =
      (Image.topByte? images j).getD (m.memory.byte (0x200 + j)) := by
  rw [loadAll_eq, Memory.byte_afterAll, Memory.lastPut?_loads]

theorem byte_loadAll_below (m : Machine) (images : List Image) {here : Nat} (h : here < 0x200) :
    (m.loadAll images).memory.byte here = m.memory.byte here := by
  rw [loadAll_eq, Memory.byte_afterAll, Memory.lastPut?_loads_below images h]
  rfl

/-- An image hides the one before it if it is as long, unless it is refused and the one before it is not. -/
theorem loadAll_pair (m : Machine) (hlength : p.length ≤ q.length) (h : q.Fits ∨ ¬ p.Fits) :
    m.loadAll [p, q] = m.loadAll [q] := by
  have hpair : m.loadAll [p, q] = ((m.load p).state.load q).state := rfl
  have hone : m.loadAll [q] = (m.load q).state := rfl
  rw [hpair, hone]
  by_cases hq : q.Fits
  · have hp : p.Fits := Nat.le_trans hlength hq
    rw [load_of_fits _ hq, load_of_fits m hp, load_of_fits m hq]
    simp only [Outcome.state, Memory.putAll_putAll _ _ hlength]
  · rw [load_of_not_fits m (h.resolve_left hq)]
    rfl

theorem loadAll_refused (m : Machine) (h : ¬ q.Fits) : m.loadAll [q] = m := by
  have hone : m.loadAll [q] = (m.load q).state := rfl
  rw [hone, load_of_not_fits _ h]
  rfl

theorem loadAll_pair_refused (m : Machine) (p : Image) (h : ¬ q.Fits) :
    m.loadAll [p, q] = m.loadAll [p] := by
  have hpair : m.loadAll [p, q] = ((m.load p).state.load q).state := rfl
  rw [hpair, load_of_not_fits _ h]
  rfl

/-- A load is done iff its image has 3584 bytes at most, and otherwise changes nothing and tells both lengths; it never
fails for an address. After any loads each byte from 0x200 on is that of the last image that fits and covers it, or what
was there before if there is none. The program counter is at 0x200 if any image was loaded, and all but it and memory
is as before. Loading an image again makes no difference, and neither does loading one before another that is as long,
unless the longer one alone is refused: then the shorter one stays. -/
theorem loads_overlay (m : Machine) (images : List Image) :
    let t := m.loadAll images
    (∀ (s : Machine) image, ((∃ u, s.load image = .done u) ↔ image.length ≤ 3584) ∧
      (3584 < image.length →
        s.load image = .faulted (.programTooLarge image.length 3584) s) ∧
      ∀ address pc u, s.load image ≠ .faulted (.addressOutOfBounds address pc) u) ∧
    (∀ j, t.memory.byte (0x200 + j) =
      (Image.topByte? images j).getD (m.memory.byte (0x200 + j))) ∧
    (∀ here < 0x200, t.memory.byte here = m.memory.byte here) ∧
    t.pc = (if ∃ image ∈ images, image.length ≤ 3584 then 0x200 else m.pc) ∧
    t = { m with memory := t.memory, pc := t.pc } ∧
    (∀ (s : Machine) p, s.loadAll [p, p] = s.loadAll [p]) ∧
    ∀ (s : Machine) p q, p.length ≤ q.length →
      s.loadAll [p, q] =
        if 3584 < q.length ∧ p.length ≤ 3584 then s.loadAll [p] else s.loadAll [q] := by
  intro t
  have ht : t = _ := m.loadAll_eq images
  refine ⟨fun s image => ⟨load_done_iff, fun h => ?_, fun address pc u h => ?_⟩,
    m.byte_loadAll images, fun here => m.byte_loadAll_below images, ?_, ?_, fun s p => ?_,
    fun s p q hlength => ?_⟩
  · exact load_of_not_fits s (Nat.not_le_of_lt h)
  · by_cases hfits : image.Fits
    · rw [load_of_fits s hfits] at h
      cases h
    · rw [load_of_not_fits s hfits] at h
      cases h
  · rw [ht]
    rfl
  · rw [ht]
  · exact s.loadAll_pair (Nat.le_refl _) (Decidable.em _)
  · by_cases hq : 3584 < q.length ∧ p.length ≤ 3584
    · rw [if_pos hq]
      exact s.loadAll_pair_refused p (Nat.not_le_of_lt hq.1)
    · rw [if_neg hq]
      refine s.loadAll_pair hlength ?_
      rw [Image.Fits, Image.Fits]
      omega

/-- An image of one byte more than there is room for. -/
def tooLong : Image := ⟨List.replicate 3585 0⟩

theorem length_tooLong : tooLong.length = 3585 := List.length_replicate

theorem length_le_tooLong (b : UInt8) : (⟨[b]⟩ : Image).length ≤ tooLong.length := by
  have hone : (⟨[b]⟩ : Image).length = 1 := rfl
  rw [length_tooLong, hone]
  decide

theorem not_fits_tooLong : ¬ tooLong.Fits := by
  rw [Image.Fits, length_tooLong]
  decide

/-- Under a longer image that is refused, a shorter one is still there. -/
theorem shorter_image_stays_under_refused :
    (⟨[1]⟩ : Image).length ≤ tooLong.length ∧
      ((ofSeed 7).loadAll [⟨[1]⟩, tooLong]).memory.byte 0x200 = 1 ∧
      ((ofSeed 7).loadAll [tooLong]).memory.byte 0x200 = 0 ∧
      (ofSeed 7).loadAll [⟨[1]⟩, tooLong] ≠ (ofSeed 7).loadAll [tooLong] := by
  have hboth : ((ofSeed 7).loadAll [⟨[1]⟩, tooLong]).memory.byte 0x200 = 1 := by
    rw [loadAll_pair_refused _ _ not_fits_tooLong]
    exact byte_loadAll _ [⟨[1]⟩] 0
  have hone : ((ofSeed 7).loadAll [tooLong]).memory.byte 0x200 = 0 := by
    rw [loadAll_refused _ not_fits_tooLong]
    exact Memory.byte_fresh 0x200
  refine ⟨length_le_tooLong 1, hboth, hone, fun hsame => ?_⟩
  rw [hsame, hone] at hboth
  cases hboth

/-- Three bytes, an image that is refused, and one byte over the first of the three. -/
def threeLoads : List Image := [⟨[1, 2, 3]⟩, tooLong, ⟨[9]⟩]

theorem topByte?_threeLoads (j : Nat) :
    Image.topByte? threeLoads j = ([9] : List UInt8)[j]?.or ([1, 2, 3] : List UInt8)[j]? := by
  have hfirst : (⟨[1, 2, 3]⟩ : Image).Fits := by decide
  have hlast : (⟨[9]⟩ : Image).Fits := by decide
  rw [threeLoads, Image.topByte?_cons, Image.topByte?_cons, Image.topByte?_cons, if_pos hfirst,
    if_neg not_fits_tooLong, if_pos hlast, Option.or_none]
  rfl

/-- The one byte lies over the first of the three, and the others and the font are where they were. -/
theorem loads_overlay_one_byte :
    ((ofSeed 7).loadAll threeLoads).memory.byte 0x200 = 9 ∧
      ((ofSeed 7).loadAll threeLoads).memory.byte 0x202 = 3 ∧
      ((ofSeed 7).loadAll threeLoads).memory.byte 0x9F = 0x80 ∧
      ((ofSeed 7).loadAll threeLoads).pc = 0x200 ∧
      (ofSeed 7).load tooLong = .faulted (.programTooLarge 3585 3584) (ofSeed 7) ∧
      (ofSeed 7).loadAll [⟨[5]⟩, ⟨[6, 7]⟩] = (ofSeed 7).loadAll [⟨[6, 7]⟩] ∧
      (ofSeed 7).loadAll [⟨[5]⟩, tooLong] = (ofSeed 7).loadAll [⟨[5]⟩] := by
  obtain ⟨hload, hbyte, hbelow, hpc, _, _, hpair⟩ := loads_overlay (ofSeed 7) threeLoads
  have hrefused := (hload (ofSeed 7) tooLong).2.1 (by rw [length_tooLong]; decide)
  have hover := hpair (ofSeed 7) ⟨[5]⟩ ⟨[6, 7]⟩ (by decide)
  have hunder := hpair (ofSeed 7) ⟨[5]⟩ tooLong (length_le_tooLong 5)
  rw [if_neg (by decide)] at hover
  rw [length_tooLong, if_pos (by decide)] at hunder
  rw [length_tooLong] at hrefused
  refine ⟨(hbyte 0).trans ?_, (hbyte 2).trans ?_,
    (hbelow 0x9F (by decide)).trans (Memory.byte_fresh 0x9F),
    hpc.trans (if_pos ⟨_, List.mem_cons_self, by decide⟩), hrefused, hover, hunder⟩
  · rw [topByte?_threeLoads]
    rfl
  · rw [topByte?_threeLoads]
    rfl

end Machine

end Chip8
