import Chip8.Proofs.Loading

/-!
# The last writer wins

Memory is used by reading and writing bytes, reading words and loading images. Its history tells what is in it: at each
address the byte that was put there last, by a write or a load that was not refused, or else what a fresh memory has there.
Addresses and lengths are natural numbers, so no sum of them comes back into memory.
-/
namespace Chip8.Memory

inductive Access where
  | read (address length : Nat)
  | write (address : Nat) (data : List UInt8)
  | word (address : Nat)
  | load (image : Image)
deriving DecidableEq, Repr

namespace Access

/-- The first address of an access. -/
def address : Access → Nat
  | read address _ => address
  | write address _ => address
  | word address => address
  | load _ => 0x200

def length : Access → Nat
  | read _ length => length
  | write _ data => data.length
  | word _ => 2
  | load image => image.length

/-- The bytes that an access puts into memory. -/
def data : Access → List UInt8
  | write _ data => data
  | load image => image.bytes
  | _ => []

/-- Whether an access stays inside memory. -/
def Fits (a : Access) : Prop := a.address + a.length ≤ 4096

instance (a : Access) : Decidable a.Fits := inferInstanceAs (Decidable (_ ≤ _))

/-- The byte that an access puts at an address, if it puts one there. -/
def put? (a : Access) (here : Nat) : Option UInt8 :=
  if a.Fits ∧ a.address ≤ here then a.data[here - a.address]? else none

end Access

/-- The memory after an access. One that is refused leaves it as it was. -/
def after (m : Memory) : Access → Memory
  | .write address data =>
    match m.write address data with
    | .ok next => next
    | .error _ => m
  | .load image =>
    match m.load image with
    | .ok next => next
    | .error _ => m
  | _ => m

def afterAll (m : Memory) (history : List Access) : Memory := history.foldl after m

/-- The byte that was put at an address last. -/
def lastPut? (history : List Access) (here : Nat) : Option UInt8 :=
  history.reverse.findSome? fun a => a.put? here

/-- What a fresh memory has at an address: a byte of the font, or zero. -/
def initially (here : Nat) : UInt8 :=
  if 0x50 ≤ here ∧ here ≤ 0x9F then Font.glyphs.getD (here - 0x50) 0 else 0

/-- What a history that starts with a fresh memory leaves at an address. -/
def remembered (history : List Access) (here : Nat) : UInt8 :=
  (lastPut? history here).getD (initially here)

variable {m : Memory} {a : Access} {here : Nat}

/-! ## One access -/

theorem load_fits_iff {image : Image} : (Access.load image).Fits ↔ image.length ≤ capacity := by
  have hcapacity : capacity = 0xE00 := rfl
  rw [Access.Fits, Access.address, Access.length]
  omega

/-- An access that fits puts its bytes where it begins. -/
theorem after_of_fits (m : Memory) (h : a.Fits) : m.after a = m.putAll a.address a.data := by
  cases a with
  | write address data =>
    have hfits : address + data.length ≤ size := h
    rw [after, write_of_le m hfits]
    rfl
  | load image =>
    rw [after, load_of_le m (load_fits_iff.mp h)]
    rfl
  | read address length => rfl
  | word address => rfl

theorem after_of_not_fits (m : Memory) (h : ¬ a.Fits) : m.after a = m := by
  cases a with
  | write address data =>
    have hlt : size < address + data.length := Nat.lt_of_not_le h
    rw [after, write_of_lt m hlt]
  | load image =>
    have hlt : capacity < image.length := Nat.lt_of_not_le fun hle => h (load_fits_iff.mpr hle)
    rw [after, load_of_lt m hlt]
  | read address length => rfl
  | word address => rfl

theorem length_data_le (a : Access) : a.data.length ≤ a.length := by
  cases a with
  | write address data => exact Nat.le_refl _
  | load image => exact Nat.le_refl _
  | read address length => exact Nat.zero_le _
  | word address => exact Nat.zero_le _

theorem byte_after (m : Memory) (a : Access) (here : Nat) :
    (m.after a).byte here = (a.put? here).getD (m.byte here) := by
  by_cases h : a.Fits
  · have hlength := length_data_le a
    have hsize : a.address + a.length ≤ 4096 := h
    rw [after_of_fits m h, byte_putAll, size, Access.put?]
    by_cases hin : a.address ≤ here ∧ here < a.address + a.data.length
    · rw [if_pos (by omega), if_pos ⟨h, hin.1⟩, List.getElem?_eq_getElem (by omega),
        Option.getD_some, List.getD_eq_getElem?_getD, List.getElem?_eq_getElem (by omega),
        Option.getD_some]
    · rw [if_neg (by omega)]
      by_cases hfrom : a.address ≤ here
      · rw [if_pos ⟨h, hfrom⟩, List.getElem?_eq_none (by omega)]
        rfl
      · rw [if_neg fun both => hfrom both.2]
        rfl
  · rw [after_of_not_fits m h, Access.put?, if_neg fun both => h both.1]
    rfl

/-! ## A history -/

theorem lastPut?_cons (a : Access) (rest : List Access) (here : Nat) :
    lastPut? (a :: rest) here = (lastPut? rest here).or (a.put? here) := by
  rw [lastPut?, List.reverse_cons, List.findSome?_append]
  simp [lastPut?]

theorem byte_afterAll (m : Memory) (history : List Access) (here : Nat) :
    (m.afterAll history).byte here = (lastPut? history here).getD (m.byte here) := by
  induction history generalizing m with
  | nil => rfl
  | cons a rest ih =>
    have hrest : m.afterAll (a :: rest) = (m.after a).afterAll rest := rfl
    rw [hrest, ih, byte_after, lastPut?_cons]
    cases lastPut? rest here with
    | none => rfl
    | some value => rfl

theorem byte_fresh_afterAll (history : List Access) (here : Nat) :
    (fresh.afterAll history).byte here = remembered history here := by
  have hfresh : fresh.byte here = initially here := by
    rw [byte_fresh, initially]
    simp only [Nat.lt_iff_le_pred (show 0 < 0xA0 by decide)]
  rw [byte_afterAll, hfresh, remembered]

theorem afterAll_concat (m : Memory) (history : List Access) (a : Access) :
    m.afterAll (history ++ [a]) = (m.afterAll history).after a := by
  rw [afterAll, List.foldl_append]
  rfl

/-- After any history on a fresh memory an access succeeds iff its address and length add up to 4096 at most, and an image
is loaded iff it has 3584 bytes at most. What is read are the bytes that were put there last, and a word is two of them.
What is refused changes nothing and tells the first address that does not exist, or the lengths that do not fit. -/
theorem last_writer_wins (history : List Access) :
    let m := fresh.afterAll history
    (∀ address length,
      (address + length ≤ 4096 → m.read address length =
        .ok ((List.range length).map fun j => remembered history (address + j))) ∧
      (4096 < address + length → m.read address length = .error ⟨max address 4096⟩)) ∧
    (∀ address,
      (address + 2 ≤ 4096 → ∃ w, m.word address = .ok w ∧
        w.toNat = 256 * (remembered history address).toNat +
          (remembered history (address + 1)).toNat) ∧
      (4096 < address + 2 → m.word address = .error ⟨max address 4096⟩)) ∧
    (∀ address data,
      (address + data.length ≤ 4096 → m.write address data =
        .ok (fresh.afterAll (history ++ [.write address data]))) ∧
      (4096 < address + data.length → m.write address data = .error ⟨max address 4096⟩ ∧
        fresh.afterAll (history ++ [.write address data]) = m)) ∧
    ∀ image : Image,
      (image.length ≤ 3584 → m.load image = .ok (fresh.afterAll (history ++ [.load image]))) ∧
      (3584 < image.length → m.load image = .error (.programTooLarge image.length 3584) ∧
        fresh.afterAll (history ++ [.load image]) = m) := by
  intro m
  refine ⟨fun address length => ⟨fun h => ?_, fun h => ?_⟩, fun address => ⟨fun h => ?_, fun h => ?_⟩,
    fun address data => ⟨fun h => ?_, fun h => ?_⟩, fun image => ⟨fun h => ?_, fun h => ?_⟩⟩
  · rw [read_of_le m h]
    simp only [m, byte_fresh_afterAll]
  · exact read_of_lt m h
  · refine ⟨_, word_of_le m h, ?_⟩
    rw [Word.toNat_ofBytes, byte_fresh_afterAll, byte_fresh_afterAll]
  · exact word_of_lt m h
  · have hfits : (Access.write address data).Fits := h
    rw [afterAll_concat, after_of_fits _ hfits]
    exact write_of_le m h
  · have hfits : ¬ (Access.write address data).Fits := Nat.not_le_of_lt h
    rw [afterAll_concat, after_of_not_fits _ hfits]
    exact ⟨write_of_lt m h, rfl⟩
  · rw [afterAll_concat, after_of_fits _ (load_fits_iff.mpr h)]
    exact load_of_le m h
  · have hfits : ¬ (Access.load image).Fits :=
      fun hle => Nat.not_le_of_lt h (load_fits_iff.mp hle)
    rw [afterAll_concat, after_of_not_fits _ hfits]
    exact ⟨load_of_lt m h, rfl⟩

/-- Bytes over bytes: a load over a write, a write that does not fit, and a write over the load. -/
def overlapping : List Access :=
  [.write 0x1FF [1, 2, 3], .load ⟨[9]⟩, .write 0xFFF [7, 8], .write 0x200 [5]]

/-- No byte of the refused write is there. An empty read is answered at the end of memory, but not behind it, and a
length that would lead around past the greatest address of 64 bits is refused as any other. -/
theorem last_writer_wins_overlapping :
    (fresh.afterAll overlapping).read 0x1FF 3 = .ok [1, 5, 3] ∧
      (fresh.afterAll overlapping).read 0xFFF 1 = .ok [0] ∧
      (fresh.afterAll overlapping).read 4096 0 = .ok [] ∧
      (fresh.afterAll overlapping).read 4097 0 = .error ⟨4097⟩ ∧
      (fresh.afterAll overlapping).read 18446744073709551615 2 = .error ⟨18446744073709551615⟩ := by
  obtain ⟨hread, _⟩ := last_writer_wins overlapping
  refine ⟨((hread 0x1FF 3).1 (by decide)).trans ?_, ((hread 0xFFF 1).1 (by decide)).trans ?_,
    (hread 4096 0).1 (by decide), (hread 4097 0).2 (by decide),
    (hread 18446744073709551615 2).2 (by decide)⟩
  · exact congrArg Except.ok (by decide)
  · exact congrArg Except.ok (by decide)

end Chip8.Memory
