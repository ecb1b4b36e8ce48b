import Chip8.Proofs.Tape

/-!
# Random numbers come in order

The random numbers of a machine are the words of its seed's stream, one after the other. Each Cxnn that is executed
takes the next word, also if its mask is zero and the word makes no difference, and nothing else takes any: neither
another instruction, nor a step or a load that fails, nor a tick.
-/
namespace Chip8

/-- Whether an instruction takes a random number. -/
def Instruction.isRandom : Instruction → Bool
  | random _ _ => true
  | _ => false

/-- The stream of a machine's random numbers. -/
def randomTape : Tape Random.Key where
  contents s := s.machine.random.key
  position s := s.machine.random.position
  reads := Instruction.isRandom
  contents_effect s i here := by cases i <;> rfl
  position_effect s i here := by cases i <;> rfl
  contents_congr hrandom _ := congrArg Random.Source.key hrandom
  position_congr hrandom _ := congrArg Random.Source.position hrandom

namespace Session

/-- A fresh session whose random numbers are those of a seed. -/
def seeded (config : Config) (seed : UInt64) (entropy : Random.Key) (k : Keypad) : Session :=
  ⟨Machine.ofConfig { config with seed := some seed } entropy, k⟩

/-- The executions that take a random number, the first one first. -/
def draws (s : Session) (actions : List Action) : List Execution :=
  randomTape.readers (s.executionsAll actions)

/-- Nothing that a host does moves the stream, but for the instructions that take from it. -/
theorem fits_randomTape (a : Action) : a.Fits randomTape.Moves := by
  have hstill : ∀ {s t : Session}, t.machine = s.machine → randomTape.Moves s [] t := by
    intro s t h
    refine Tape.moves_of_still ?_ ?_
    · exact congrArg (·.random.key) h
    · exact congrArg (·.random.position) h
  exact Action.fits_of_same hstill fun image _ s => randomTape.moves_load s image

theorem moves_randomTape (s : Session) (actions : List Action) :
    randomTape.Moves s (s.executionsAll actions) (s.actAll actions) :=
  randomTape.moves_composes.actAll s fun a _ => fits_randomTape a

/-- What an executed Cxnn does to the registers. -/
theorem takes_of_random (e : Execution) {x nn : UInt8} (h : e.instruction = .random x nn) :
    e.before.machine.registers.Takes x
      (Random.byte e.before.machine.random.key e.before.machine.random.position &&& nn)
      e.after.machine.registers := by
  have hafter := execute_done_eq e.done
  rw [hafter, h]
  exact Registers.takes_set _ _ _

theorem isRandom_iff {i : Instruction} : i.isRandom = true ↔ ∃ x nn, i = .random x nn := by
  cases i <;> simp [Instruction.isRandom]

/-- On a machine with a seed, whatever a host does with it, the Cxnn that has `j` others before it sets its register to
the low byte of word `j` of the seed's stream, masked, and sets nothing else. The stream stands at as many words as
there were such instructions. No other instruction moves it, no failing step, no load and no tick. -/
theorem draws_follow_stream (config : Config) (seed : UInt64) (entropy : Random.Key) (k : Keypad)
    (actions : List Action) :
    let s := seeded config seed entropy k
    let draws := s.draws actions
    let t := s.actAll actions
    (∀ j (h : j < draws.length), ∃ x nn, draws[j].instruction = .random x nn ∧
      draws[j].before.machine.registers.Takes x
        ((Random.word (Random.keyOf seed) j).toUInt8 &&& nn) draws[j].after.machine.registers) ∧
    t.machine.random = ⟨Random.keyOf seed, draws.length⟩ ∧
    (∀ i here u, t.execute i here = .done u → i.isRandom = false →
      u.machine.random = t.machine.random) ∧
    (∀ f u, t.step = .faulted f u → u.machine.random = t.machine.random) ∧
    (∀ image, (t.machine.load image).state.random = t.machine.random) ∧
    ∀ n, (t.machine.tick n).1.random = t.machine.random := by
  intro s draws t
  have hmoves := s.moves_randomTape actions
  have hkey : s.machine.random.key = Random.keyOf seed := rfl
  have hstart : s.machine.random.position = 0 := rfl
  refine ⟨?_, ?_, ?_, ?_, ?_, ?_⟩
  · intro j hj
    have hmem : draws[j] ∈ draws := List.getElem_mem hj
    obtain ⟨x, nn, hi⟩ := isRandom_iff.mp (List.mem_filter.mp hmem).2
    have hfound : draws[j].before.machine.random.key = Random.keyOf seed := hmoves.found _ hmem
    have hplace : draws[j].before.machine.random.position = 0 + j := hmoves.place hj
    have htakes := takes_of_random draws[j] hi
    rw [hfound, hplace, Nat.zero_add] at htakes
    exact ⟨x, nn, hi, htakes⟩
  · have hcontents : t.machine.random.key = Random.keyOf seed := hmoves.contents
    have hposition : t.machine.random.position = 0 + draws.length := hmoves.position
    rw [Nat.zero_add] at hposition
    rw [← hcontents, ← hposition]
  · intro i here u h hi
    rw [execute_done_eq h]
    cases i with
    | random x nn => cases hi
    | _ => rfl
  · intro f u h
    rw [(step_faulted_iff.mp h).2]
  · intro image
    rcases t.machine.load_state_cases image with hsame | ⟨memory, hloaded⟩
    · rw [hsame]
    · rw [hloaded]
  · intro n
    rfl

/-- Puts a random number into V0 again and again. -/
def drawLoop : Image := ⟨[0xC0, 0xF0, 0x12, 0x00]⟩

/-- Draws once in a step and fifteen times by hand, which uses up the first block, and once more in a run, with a load
and a return that fail in between. -/
def drawsOfTwoBlocks : List Action :=
  [.operation (.load drawLoop), .operation .step] ++
    List.replicate 15 (.execute (.random 1 0) 0x300) ++
    [.operation (.load ⟨List.replicate 3585 0⟩), .execute .ret 0x300,
      .operation (.run (fun _ => 1) 2)]

/-- The session that draws, with 7 for a seed. -/
def drawing : Session := seeded Config.standard 7 (Random.keyOf 0) Keypad.untouched

theorem drawing_draws : (drawing.draws drawsOfTwoBlocks).map Execution.instruction =
    .random 0 0xF0 :: List.replicate 15 (.random 1 0) ++ [.random 0 0xF0] := by
  decide +kernel

/-- The last draw takes the first word of the second block. It puts its number into V0 and leaves V1 as the draws before
have left it. -/
theorem draws_follow_stream_second_block :
    (drawing.actAll drawsOfTwoBlocks).machine.random = ⟨Random.keyOf 7, 17⟩ ∧
      ∃ h : 16 < (drawing.draws drawsOfTwoBlocks).length,
        (drawing.draws drawsOfTwoBlocks)[16].after.machine.registers.get 0 = 160 ∧
          (drawing.draws drawsOfTwoBlocks)[16].after.machine.registers.get 1 =
            (drawing.draws drawsOfTwoBlocks)[16].before.machine.registers.get 1 := by
  have hall := draws_follow_stream Config.standard 7 (Random.keyOf 0) Keypad.untouched
    drawsOfTwoBlocks
  dsimp only at hall
  rw [← drawing] at hall
  obtain ⟨hdraws, hend, _⟩ := hall
  have hlength : (drawing.draws drawsOfTwoBlocks).length = 17 := by
    have h := congrArg List.length drawing_draws
    rwa [List.length_map] at h
  have hlast : 16 < (drawing.draws drawsOfTwoBlocks).length := by
    rw [hlength]
    decide
  have hword : (Random.word (Random.keyOf 7) 16).toUInt8 &&& 0xF0 = 160 := by decide +kernel
  rw [hlength] at hend
  obtain ⟨x, nn, hi, htakes⟩ := hdraws 16 hlast
  have hlist := List.getElem_of_eq drawing_draws (i := 16) (by rw [List.length_map]; exact hlast)
  rw [List.getElem_map] at hlist
  have hoperands := hi.symm.trans hlist
  cases hoperands
  exact ⟨hend, hlast, htakes.taken.trans hword, htakes.others 1 (by decide)⟩

end Session

end Chip8
