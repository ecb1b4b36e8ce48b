import Chip8.Proofs.Effect
import Chip8.Proofs.Trace

/-!
# What a program does not see

Only Fx07 sees a timer, only Cxnn with a mask that is not zero sees a random number, and nothing sees the configuration. Two
sessions that differ in these alone take the same steps as long as none of these instructions is executed, and they still
differ in nothing else. If they have the same random numbers, Cxnn may be executed as well.
-/
namespace Chip8

/-- Whether an instruction does the same whatever the timers are and, unless they are `known` to be the same, whatever the
random numbers are. -/
def Instruction.IsBlind (known : Prop) : Instruction → Prop
  | readDelay _ => False
  | random _ nn => known ∨ nn = 0
  | _ => True

namespace Session

/-- The session with other timers, another configuration and other random numbers. -/
def amid (s : Session) (timers : Timers) (config : Config) (random : Random.Source) : Session :=
  { s with machine := { s.machine with timers := timers, config := config, random := random } }

/-- Sessions that are the same but for timers, configuration and random numbers, and have the same random numbers if these
are `known`. -/
structure Alike (known : Prop) (s t : Session) : Prop where
  rest : t = s.amid t.machine.timers t.machine.config t.machine.random
  random : known → t.machine.random = s.machine.random

variable {known : Prop} {s t u : Session} {i : Instruction} {here : Address} {f : Fault}

theorem effect_amid (s : Session) (timers : Timers) (config : Config) (random : Random.Source)
    (here : Address) (hi : i.IsBlind (random = s.machine.random)) :
    (s.amid timers config random).effect i here = (s.effect i here).amid
      (timers.after s.machine.registers i) config
      ((s.amid timers config random).machine.randomAfter i) := by
  cases i with
  | readDelay x => exact hi.elim
  | random x nn =>
    have hregisters : (s.amid timers config random).registersAfter (.random x nn) =
        s.registersAfter (.random x nn) := by
      rcases hi with rfl | rfl
      · rfl
      · change s.machine.registers.set x (random.next.1 &&& 0) =
          s.machine.registers.set x (s.machine.random.next.1 &&& 0)
        rw [UInt8.and_zero, UInt8.and_zero]
    simp only [effect, hregisters]
    rfl
  | _ => rfl

/-- What has nothing to do with timers, configuration and random numbers leaves the sessions alike. -/
theorem Alike.map (h : Alike known s t) {g : Session → Session}
    (hg : ∀ u timers config random,
      g (u.amid timers config random) = (g u).amid timers config random)
    (hrandom : ∀ u, (g u).machine.random = u.machine.random) : Alike known (g s) (g t) := by
  have hgt : g t = (g s).amid t.machine.timers t.machine.config t.machine.random := by
    rw [← hg, ← h.rest]
  constructor
  · rw [hgt]
    rfl
  · intro hk
    rw [hrandom, hrandom, h.random hk]

theorem Alike.effect (h : Alike known s t) (hi : i.IsBlind known) (here : Address) :
    Alike known (s.effect i here) (t.effect i here) := by
  have hblind : i.IsBlind (t.machine.random = s.machine.random) := by
    cases i with
    | random x nn => exact hi.imp_left h.random
    | _ => exact hi
  have heffect := s.effect_amid t.machine.timers t.machine.config t.machine.random here hblind
  rw [← h.rest] at heffect
  constructor
  · rw [heffect]
    rfl
  · intro hk
    change t.machine.randomAfter i = s.machine.randomAfter i
    cases i with
    | random x nn => exact congrArg (fun source => source.next.2) (h.random hk)
    | _ => exact h.random hk

theorem Alike.fault (h : Alike known s t) : t.machine.fault? = s.machine.fault? := by
  rw [h.rest]
  rfl

theorem Alike.screen (h : Alike known s t) : t.machine.screen = s.machine.screen := by
  rw [h.rest]
  rfl

/-- A step that executes a blind instruction is done in both sessions and leaves them alike. -/
theorem Alike.step_done (h : Alike known s t) (hs : s.step = .done u)
    (hblind : ∀ i, s.executed? = some i → i.IsBlind known) :
    ∃ v, t.step = .done v ∧ Alike known u v := by
  obtain ⟨v, hv⟩ := step_done_iff.mpr (h.fault.trans (step_done_iff.mp ⟨u, hs⟩))
  obtain ⟨w, i, hfetch, rfl⟩ := step_done_eq hs
  obtain ⟨w', i', hfetch', rfl⟩ := step_done_eq hv
  have hsame : t.machine.fetch = s.machine.fetch ∧ t.machine.pc = s.machine.pc := by
    rw [h.rest]
    exact ⟨rfl, rfl⟩
  rw [hsame.1, hfetch] at hfetch'
  cases hfetch'
  have hahead : Alike known s.ahead t.ahead := h.map (fun _ _ _ _ => rfl) fun _ => rfl
  have heffect := hahead.effect (hblind i (executed?_of_done hfetch hs)) s.machine.pc
  refine ⟨_, hv, ?_⟩
  rw [hsame.2]
  exact heffect.map (g := count) (fun _ _ _ _ => rfl) fun _ => rfl

end Session

end Chip8
