import Chip8.Proofs.History
import Chip8.Proofs.Loading

/-!
# Tapes

The random numbers of a machine and the answers of a keypad are read like a tape: some instructions read the place that
the tape stands at and move it on by one, and nothing else moves it. So the place that an execution reads is the number
of readers before it, however many other executions, failures and loads lie between.
-/
namespace Chip8

/-- What is on a tape, how far it has been read, and which instructions read it. It is no matter for a tape what the
machine does with anything but its random numbers and its keypad. -/
structure Tape (α : Type) where
  contents : Session → α
  position : Session → Nat
  reads : Instruction → Bool
  contents_effect : ∀ s i here, contents (s.effect i here) = contents s
  position_effect : ∀ s i here,
    position (s.effect i here) = position s + if reads i then 1 else 0
  contents_congr : ∀ {s t : Session}, t.machine.random = s.machine.random →
    t.keypad = s.keypad → contents t = contents s
  position_congr : ∀ {s t : Session}, t.machine.random = s.machine.random →
    t.keypad = s.keypad → position t = position s

namespace Tape

variable {α : Type} {tape : Tape α} {s t u : Session} {first second : List Execution}

/-- The executions that read the tape. -/
def readers (tape : Tape α) (executions : List Execution) : List Execution :=
  executions.filter fun e => tape.reads e.instruction

/-- What holds of a tape while executions lead from `s` to `t`: each reader finds it where the reader before has left
it. -/
structure Moves (tape : Tape α) (s : Session) (executions : List Execution) (t : Session) :
    Prop where
  contents : tape.contents t = tape.contents s
  position : tape.position t = tape.position s + (tape.readers executions).length
  found : ∀ e ∈ tape.readers executions, tape.contents e.before = tape.contents s
  places : (tape.readers executions).map (fun e => tape.position e.before) =
    List.range' (tape.position s) (tape.readers executions).length

theorem readers_append (tape : Tape α) (first second : List Execution) :
    tape.readers (first ++ second) = tape.readers first ++ tape.readers second :=
  List.filter_append first second

theorem readers_singleton (tape : Tape α) (e : Execution) :
    tape.readers [e] = if tape.reads e.instruction then [e] else [] := List.filter_cons

/-- Reader `j` reads the place `j` places behind the one that the tape stood at. -/
theorem Moves.place (h : tape.Moves s first t) {j : Nat} (hj : j < (tape.readers first).length) :
    tape.position (tape.readers first)[j].before = tape.position s + j := by
  have hplace := List.getElem_of_eq h.places (i := j) (by rw [List.length_map]; exact hj)
  rw [List.getElem_map, List.getElem_range', Nat.one_mul] at hplace
  exact hplace

theorem moves_of_still (hcontents : tape.contents t = tape.contents s)
    (hposition : tape.position t = tape.position s) : tape.Moves s [] t where
  contents := hcontents
  position := hposition
  found := fun _ he => absurd he List.not_mem_nil
  places := rfl

theorem moves_of_same (hrandom : t.machine.random = s.machine.random)
    (hkeypad : t.keypad = s.keypad) : tape.Moves s [] t :=
  moves_of_still (tape.contents_congr hrandom hkeypad) (tape.position_congr hrandom hkeypad)

theorem Moves.trans (hs : tape.Moves s first t) (ht : tape.Moves t second u) :
    tape.Moves s (first ++ second) u := by
  constructor
  · exact ht.contents.trans hs.contents
  · rw [ht.position, hs.position, readers_append, List.length_append, Nat.add_assoc]
  · intro e he
    rw [readers_append] at he
    rcases List.mem_append.mp he with he | he
    · exact hs.found e he
    · exact (ht.found e he).trans hs.contents
  · rw [readers_append, List.map_append, hs.places, ht.places, hs.position, List.length_append,
      List.range'_append_1]

/-- An execution moves the tape by one place if its instruction reads it, and not at all otherwise. -/
theorem moves_execution (tape : Tape α) (e : Execution) : tape.Moves e.before [e] e.after := by
  have heffect : e.after = e.before.effect e.instruction e.here :=
    Session.execute_done_eq e.done
  have hposition := tape.position_effect e.before e.instruction e.here
  rw [← heffect] at hposition
  constructor
  · rw [heffect]
    exact tape.contents_effect _ _ _
  · rw [readers_singleton, hposition]
    split <;> rfl
  · intro e' he'
    have hmem := (List.mem_filter.mp he').1
    rw [List.mem_singleton.mp hmem]
  · rw [readers_singleton]
    split <;> rfl

theorem moves_composes (tape : Tape α) : Composes tape.Moves where
  refl _ := moves_of_same rfl rfl
  trans := Moves.trans
  execution := tape.moves_execution
  setPc _ _ := moves_of_same rfl rfl
  count _ := moves_of_same rfl rfl
  setTimers _ _ := moves_of_same rfl rfl

/-- Loading leaves every tape alone. -/
theorem moves_load (tape : Tape α) (s : Session) (image : Image) :
    tape.Moves s [] { s with machine := (s.machine.load image).state } := by
  rcases s.machine.load_state_cases image with hsame | ⟨memory, hloaded⟩
  · rw [hsame]
    exact moves_of_same rfl rfl
  · rw [hloaded]
    exact moves_of_same rfl rfl

end Tape

end Chip8
