import Chip8.Proofs.Setting
import Chip8.Proofs.Trace

/-!
# Ticks make no difference

A program that does not read the delay timer cannot tell how often the timers have ticked. Of two sessions that are the
same but for the timers, each step ends in the same way and leaves sessions that again are the same but for the timers,
so ticks can be put between the steps as one likes.
-/
namespace Chip8

def Event.isTick : Event → Bool
  | tick _ => true
  | _ => false

/-- The events that are no ticks. -/
def withoutTicks (events : List Event) : List Event := events.filter fun e => !e.isTick

namespace Session

/-- The session with its timers stopped. Sessions that are the same but for the timers come to the same. -/
def untimed (s : Session) : Session := s.setTimers Timers.stopped

variable {w : Word} {x : UInt8}

/-- A read of the delay timer is always done. -/
theorem executed?_readDelay {s : Session} (hf : s.machine.fetch = .ok (w, .readDelay x)) :
    s.executed? = some (.readDelay x) := by
  have hfault : s.machine.fault? = none := Machine.fault_of_fetched hf
  obtain ⟨t, ht⟩ := step_done_iff.mpr hfault
  exact executed?_of_done hf ht

/-- A step that does not read the delay timer ends in the same way whatever the timers are. -/
theorem step_setTimers (s : Session) (timers : Timers)
    (hread : ∀ x, .readDelay x ∉ s.executedBy .step) :
    (s.setTimers timers).step =
      s.step.map fun t => t.setTimers (s.machine.timersAfter timers) := by
  have hnone : ∀ w x, s.machine.fetch = .ok (w, .readDelay x) →
      timers.delay = s.machine.timers.delay := by
    intro w x hf
    refine absurd ?_ (hread x)
    rw [executedBy, executed?_readDelay hf]
    exact List.mem_singleton.mpr rfl
  change (s.under timers s.machine.config).step = _
  rw [s.step_under _ _ hnone]
  exact s.step_map_congr fun _ => rfl

/-- An event that does not read the delay timer comes to the same whatever the timers are. -/
theorem after_setTimers (s : Session) (timers : Timers) (e : Event)
    (hread : ∀ x, .readDelay x ∉ s.executedBy e) :
    (∃ later, (s.setTimers timers).after e = (s.after e).setTimers later) ∧
      ((s.setTimers timers).outcomesOf e).map (Outcome.map untimed) =
        (s.outcomesOf e).map (Outcome.map untimed) := by
  cases e with
  | step =>
    have hstep := s.step_setTimers timers hread
    refine ⟨⟨s.machine.timersAfter timers, ?_⟩, ?_⟩
    · exact (congrArg Outcome.state hstep).trans (Outcome.state_map _ _)
    · rw [outcomesOf, outcomesOf, hstep]
      cases s.step with
      | done t => rfl
      | faulted f t => rfl
      | trapped trap t => rfl
  | tick n => exact ⟨⟨_, rfl⟩, rfl⟩
  | keypad k => exact ⟨⟨timers, rfl⟩, rfl⟩
  | edit t => exact ⟨⟨t.machine.timers, rfl⟩, rfl⟩

/-- Of two sessions that are the same but for the timers, one plays the events and the other leaves out the ticks. -/
theorem outcomes_setTimers (s : Session) (timers : Timers) (events : List Event)
    (hread : ∀ x, .readDelay x ∉ s.executed (withoutTicks events)) :
    ((s.setTimers timers).outcomes events).map (Outcome.map untimed) =
        (s.outcomes (withoutTicks events)).map (Outcome.map untimed) ∧
      ((s.setTimers timers).play events).untimed = (s.play (withoutTicks events)).untimed := by
  induction events generalizing s timers with
  | nil => exact ⟨rfl, rfl⟩
  | cons e rest ih =>
    cases htick : e.isTick with
    | true =>
      have hskip : withoutTicks (e :: rest) = withoutTicks rest :=
        List.filter_cons_of_neg (by rw [htick]; exact Bool.false_ne_true)
      rw [hskip] at hread ⊢
      -- A tick leads to other timers, which the induction leaves open.
      cases e with
      | tick n => exact ih s _ hread
      | _ => cases htick
    | false =>
      have hkeep : withoutTicks (e :: rest) = e :: withoutTicks rest :=
        List.filter_cons_of_pos (by rw [htick]; rfl)
      rw [hkeep] at hread ⊢
      have hhere : ∀ x, .readDelay x ∉ s.executedBy e :=
        fun x hx => hread x (List.mem_append_left _ hx)
      have hlater : ∀ x, .readDelay x ∉ (s.after e).executed (withoutTicks rest) :=
        fun x hx => hread x (List.mem_append_right _ hx)
      obtain ⟨⟨later, hafter⟩, houtcomes⟩ := s.after_setTimers timers e hhere
      obtain ⟨hrest, hend⟩ := ih (s.after e) later hlater
      refine ⟨?_, ?_⟩
      · rw [outcomes, outcomes, List.map_append, List.map_append, houtcomes, hafter, hrest]
      · rw [play_cons, play_cons, hafter, hend]

/-- If no step of a run without ticks reads the delay timer, ticks can be inserted anywhere in it: the steps end in the
same way, with the same faults, and after each of them and at the end everything but the timers is the same. -/
theorem ticks_make_no_difference (s : Session) (events : List Event)
    (hread : ∀ x, .readDelay x ∉ s.executed (withoutTicks events)) :
    (s.outcomes events).map (Outcome.map untimed) =
        (s.outcomes (withoutTicks events)).map (Outcome.map untimed) ∧
      (s.play events).untimed = (s.play (withoutTicks events)).untimed :=
  s.outcomes_setTimers s.machine.timers events hread

/-- A session whose program sets the delay timer to 3 and then comes to a zero word. -/
def timed : Session where
  machine := { Machine.ofSeed 7 with
    memory := Memory.fresh.putAll 0x200 [0x60, 0x03, 0xF0, 0x15] }
  keypad := Keypad.untouched

/-- Ticks before, between and after three steps, the last of which fails. -/
def interrupted : List Event := [.tick 2, .step, .step, .tick 1, .step, .tick 1]

/-- The ticks show in the delay timer and nowhere else. -/
theorem ticks_make_no_difference_timed :
    (timed.play interrupted).machine.timers.delay = 1 ∧
      (timed.play [.step, .step, .step]).machine.timers.delay = 3 ∧
      (timed.outcomes interrupted).map (Outcome.map untimed) =
        (timed.outcomes [.step, .step, .step]).map (Outcome.map untimed) ∧
      (timed.play interrupted).untimed = (timed.play [.step, .step, .step]).untimed := by
  have hexecuted : timed.executed (withoutTicks interrupted) = [.load 0 3, .setDelay 0] := by
    decide +kernel
  have hread : ∀ x, .readDelay x ∉ timed.executed (withoutTicks interrupted) := by
    intro x hx
    rw [hexecuted] at hx
    simp at hx
  have hall := ticks_make_no_difference timed interrupted hread
  exact ⟨by decide +kernel, by decide +kernel, hall.1, hall.2⟩

end Session

end Chip8
