import Chip8.Image.Reading

/-!
# What is read of a supply

A supply may hand out an image in pieces of any length, with interruptions between them, and each call may have room for
any number of bytes. All that counts is what the pieces come to up to the first empty one, or whether a failure comes
before. Nothing behind an empty piece or a failure is looked at.
-/
namespace Chip8

namespace Supply

/-- Whether a reading goes on behind an event. -/
def Event.GoesOn : Event → Prop
  | piece bytes => bytes ≠ []
  | interrupted => True
  | failure _ => False

def Event.bytes : Event → List UInt8
  | piece bytes => bytes
  | interrupted => []
  | failure _ => []

/-- The bytes of the pieces, one after the other. -/
def bytes (supply : Supply) : List UInt8 := supply.flatMap Event.bytes

/-- Whether a supply is over: it is exhausted, or an empty piece is next. -/
def Over (supply : Supply) : Prop := supply = [] ∨ ∃ rest, supply = .piece [] :: rest

variable {rooms : Nat → Nat} {call : Nat} {supply rest before after : Supply}
  {taken : List UInt8} {reason : String}

/-! ## One call -/

theorem readAll_of_bytes (h : supply.take (rooms call + 1) = (.bytes taken, rest))
    (htaken : taken ≠ []) :
    readAll rooms call supply = (readAll rooms (call + 1) rest).map (taken ++ ·) := by
  have hsupply : supply ≠ [] := by
    rintro rfl
    cases h
    exact htaken rfl
  rw [readAll, dif_neg hsupply]
  split
  next hreply =>
    cases hreply.symm.trans h
    exact absurd rfl htaken
  next hreply =>
    cases hreply.symm.trans h
    cases readAll rooms (call + 1) rest with
    | ok more => rfl
    | error reason => rfl
  next hreply => cases hreply.symm.trans h
  next hreply => cases hreply.symm.trans h

theorem readAll_of_over (h : supply.Over) : readAll rooms call supply = .ok [] := by
  obtain rfl | ⟨rest, rfl⟩ := h
  · rw [readAll, dif_pos rfl]
  · rw [readAll, dif_neg (List.cons_ne_nil _ _)]
    rfl

theorem readAll_interrupted (rooms : Nat → Nat) (call : Nat) (rest : Supply) :
    readAll rooms call (.interrupted :: rest) = readAll rooms (call + 1) rest := by
  rw [readAll, dif_neg (List.cons_ne_nil _ _)]
  rfl

theorem readAll_failure (rooms : Nat → Nat) (call : Nat) (reason : String) (rest : Supply) :
    readAll rooms call (.failure reason :: rest) = .error reason := by
  rw [readAll, dif_neg (List.cons_ne_nil _ _)]
  rfl

/-! ## Whole readings -/

theorem map_append_map (result : Except String (List UInt8)) (first second : List UInt8) :
    (result.map (second ++ ·)).map (first ++ ·) = result.map (first ++ second ++ ·) := by
  cases result with
  | ok more => exact congrArg Except.ok (List.append_assoc _ _ _).symm
  | error reason => rfl

/-- A piece is read whole, however many calls that takes. -/
theorem readAll_piece (rooms : Nat → Nat) (call : Nat) {piece : List UInt8} (h : piece ≠ [])
    (rest : Supply) : ∃ later,
      readAll rooms call (.piece piece :: rest) = (readAll rooms later rest).map (piece ++ ·) := by
  -- What does not fit into the call is a shorter piece for the next one.
  induction hlength : piece.length using Nat.strongRecOn generalizing piece call with
  | _ length ih =>
    by_cases hfits : piece.length ≤ rooms call + 1
    · exact ⟨call + 1, readAll_of_bytes (if_pos hfits) h⟩
    · have hreply : Supply.take (rooms call + 1) (.piece piece :: rest) =
          (.bytes (piece.take (rooms call + 1)),
            .piece (piece.drop (rooms call + 1)) :: rest) := if_neg hfits
      have htake : piece.take (rooms call + 1) ≠ [] := by
        rw [ne_eq, List.take_eq_nil_iff]
        simp [h]
      have hdrop : piece.drop (rooms call + 1) ≠ [] := by
        rw [ne_eq, List.drop_eq_nil_iff]
        exact hfits
      obtain ⟨later, hlater⟩ :=
        ih _ (by rw [← hlength, List.length_drop]; omega) (call + 1) hdrop rfl
      refine ⟨later, ?_⟩
      rw [readAll_of_bytes hreply htake, hlater, map_append_map, List.take_append_drop]

/-- A reading comes to the bytes of the events behind which it goes on, and then to what is left. -/
theorem readAll_append (rooms : Nat → Nat) (call : Nat) (h : ∀ e ∈ before, e.GoesOn)
    (after : Supply) : ∃ later,
      readAll rooms call (before ++ after) =
        (readAll rooms later after).map (before.bytes ++ ·) := by
  induction before generalizing call with
  | nil =>
    refine ⟨call, ?_⟩
    rw [List.nil_append]
    cases readAll rooms call after with
    | ok more => rfl
    | error reason => rfl
  | cons e rest ih =>
    have hrest : ∀ e ∈ rest, e.GoesOn := fun e he => h e (List.mem_cons_of_mem _ he)
    cases e with
    | piece piece =>
      obtain ⟨next, hnext⟩ := readAll_piece rooms call (h _ List.mem_cons_self) (rest ++ after)
      obtain ⟨later, hlater⟩ := ih next hrest
      refine ⟨later, ?_⟩
      rw [List.cons_append, hnext, hlater, map_append_map]
      rfl
    | interrupted =>
      obtain ⟨later, hlater⟩ := ih (call + 1) hrest
      refine ⟨later, ?_⟩
      rw [List.cons_append, readAll_interrupted, hlater]
      rfl
    | failure reason => exact (h _ List.mem_cons_self).elim

/-- Every supply goes on up to where it is over or fails. -/
theorem exists_append (supply : Supply) : ∃ before after, supply = before ++ after ∧
    (∀ e ∈ before, e.GoesOn) ∧ (after.Over ∨ ∃ reason rest, after = .failure reason :: rest) := by
  induction supply with
  | nil => exact ⟨[], [], rfl, fun _ h => absurd h List.not_mem_nil, Or.inl (Or.inl rfl)⟩
  | cons e rest ih =>
    obtain ⟨before, after, rfl, hbefore, hafter⟩ := ih
    by_cases he : e.GoesOn
    · exact ⟨e :: before, after, rfl, List.forall_mem_cons.mpr ⟨he, hbefore⟩, hafter⟩
    · refine ⟨[], e :: (before ++ after), rfl, fun _ h => absurd h List.not_mem_nil, ?_⟩
      cases e with
      | piece piece =>
        obtain rfl : piece = [] := Classical.not_not.mp he
        exact Or.inl (Or.inr ⟨_, rfl⟩)
      | interrupted => exact absurd trivial he
      | failure reason => exact Or.inr ⟨reason, _, rfl⟩

end Supply

namespace Image

open Supply (Event)

/-- An image is what the pieces come to up to the end of the supply, or the reading fails with the failure that comes
before, and one of the two is the case for every supply. Neither the length of the pieces nor interruptions between them
matter, nor the room that the calls have, nor what is left in the supply: supplies that hold the same bytes up to their
ends hold the same image. -/
theorem read_joins_pieces (rooms : Nat → Nat) :
    (∀ before after : Supply, (∀ e ∈ before, e.GoesOn) → after.Over →
      read rooms (before ++ after) = .ok ⟨before.bytes⟩) ∧
    (∀ (before : Supply) reason rest, (∀ e ∈ before, e.GoesOn) →
      read rooms (before ++ .failure reason :: rest) = .error (.unreadable reason) ∧
        (Fault.unreadable reason).message = "io error: " ++ reason) ∧
    (∀ supply : Supply, ∃ before after, supply = before ++ after ∧ (∀ e ∈ before, e.GoesOn) ∧
      (after.Over ∨ ∃ reason rest, after = .failure reason :: rest)) ∧
    ∀ rooms' (before before' after after' : Supply),
      (∀ e ∈ before, e.GoesOn) → (∀ e ∈ before', e.GoesOn) → after.Over → after'.Over →
      before.bytes = before'.bytes →
        read rooms (before ++ after) = read rooms' (before' ++ after') := by
  have hread : ∀ rooms {before after : Supply}, (∀ e ∈ before, e.GoesOn) → after.Over →
      read rooms (before ++ after) = .ok ⟨before.bytes⟩ := by
    intro rooms before after hbefore hafter
    obtain ⟨later, hlater⟩ := Supply.readAll_append rooms 0 hbefore after
    rw [read, hlater, Supply.readAll_of_over hafter]
    exact congrArg (fun bytes => Except.ok (Image.mk bytes)) (List.append_nil _)
  refine ⟨fun _ _ => hread rooms, ?_, Supply.exists_append, ?_⟩
  · intro before reason rest hbefore
    obtain ⟨later, hlater⟩ := Supply.readAll_append rooms 0 hbefore (.failure reason :: rest)
    refine ⟨?_, rfl⟩
    rw [read, hlater, Supply.readAll_failure]
    rfl
  · intro rooms' before before' after after' hbefore hbefore' hafter hafter' hbytes
    rw [hread rooms hbefore hafter, hread rooms' hbefore' hafter', hbytes]

/-- Two pieces with interruptions before them. -/
def fourBytes : Supply := [.interrupted, .piece [0x00, 0xE0, 0x12], .interrupted, .piece [0x00]]

/-- The image is read byte by byte, and a failure behind the empty piece goes unnoticed. A failure before it is passed on.
-/
theorem read_joins_pieces_byte_by_byte :
    (∀ e ∈ fourBytes, e.GoesOn) ∧ Supply.Over [.piece [], .failure "late"] ∧
      read (fun _ => 0) (fourBytes ++ [.piece [], .failure "late"]) =
        .ok ⟨[0x00, 0xE0, 0x12, 0x00]⟩ ∧
      read (fun _ => 0) (fourBytes ++ [.failure "early", .piece []]) =
        .error (.unreadable "early") := by
  have hgoesOn : ∀ e ∈ fourBytes, e.GoesOn := by
    simp only [fourBytes, List.forall_mem_cons]
    exact ⟨trivial, List.cons_ne_nil _ _, trivial, List.cons_ne_nil _ _,
      fun _ h => absurd h List.not_mem_nil⟩
  have hover : Supply.Over [.piece [], .failure "late"] := Or.inr ⟨_, rfl⟩
  obtain ⟨hread, hfails, _⟩ := read_joins_pieces fun _ => 0
  exact ⟨hgoesOn, hover, hread _ _ hgoesOn hover, (hfails _ _ _ hgoesOn).1⟩

end Image

end Chip8
