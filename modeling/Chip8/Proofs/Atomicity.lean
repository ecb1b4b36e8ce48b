import Chip8.Proofs.Event
import Chip8.Proofs.Stepping

/-!
# Failures leave nothing behind

An instruction checks all that it needs before it writes anything, and a step puts the program counter back, so a
failure leaves the session as it was. What made the step fail is then still there: neither the timers nor the keypad
have a part in it, and the same fault comes back however often the step is tried again.
-/
namespace Chip8

namespace Session

variable {s t : Session} {f : Fault}

theorem step_faulted_state (h : s.step = .faulted f t) : t = s := (step_faulted_iff.mp h).2

theorem execute_faulted_state {i : Instruction} {here : Address}
    (h : s.execute i here = .faulted f t) : t = s := (execute_faulted_iff.mp h).2.2

/-- An instruction that does not trap is done, or refused with the session as it was. -/
theorem execute_of_not_traps {i : Instruction} (h : ¬ s.Traps i) (here : Address) :
    (∃ u, s.execute i here = .done u) ∨ ∃ g, s.execute i here = .faulted g s := by
  cases hr : s.machine.refusal? i here with
  | none => exact Or.inl (execute_done_iff.mpr ⟨h, hr⟩)
  | some g => exact Or.inr ⟨g, execute_faulted_iff.mpr ⟨h, hr, rfl⟩⟩

/-- A fault is decided by memory, program counter, call stack and index, and a passive event writes to none of
them while the machine cannot step. -/
theorem fault_after {e : Event} (hf : s.machine.fault? = some f) (he : e.IsPassive) :
    (s.after e).machine.fault? = some f := by
  cases e with
  | step =>
    have hs : s.step = .faulted f s := step_faulted_iff.mpr ⟨hf, rfl⟩
    rw [after, hs]
    exact hf
  | tick n => exact hf
  | keypad k => exact hf
  | edit u => exact he.elim

theorem fault_play {events : List Event} (hf : s.machine.fault? = some f)
    (he : ∀ e ∈ events, e.IsPassive) : (s.play events).machine.fault? = some f := by
  induction events generalizing s with
  | nil => exact hf
  | cons e rest ih =>
    rw [play_cons]
    have hafter := fault_after hf (he e List.mem_cons_self)
    exact ih hafter fun e' h' => he e' (List.mem_cons_of_mem e h')

/-- A failing step and a failing instruction leave machine and keypad as they were. An instruction built by hand
fails so or is done unless it is one of those that trap. Once a step has failed, every later one fails with the same
fault, whatever ticks, keypads and other attempts come between. -/
theorem failure_atomic_and_sticky (s : Session) :
    (∀ f t, s.step = .faulted f t → t = s) ∧
      (∀ i here f t, s.execute i here = .faulted f t → t = s) ∧
      (∀ i here, ¬ s.Traps i →
        (∃ t, s.execute i here = .done t) ∨ ∃ f, s.execute i here = .faulted f s) ∧
      ∀ f t, s.step = .faulted f t → ∀ events : List Event, (∀ e ∈ events, e.IsPassive) →
        (t.play events).step = .faulted f (t.play events) := by
  refine ⟨fun f t => step_faulted_state, fun i here f t => execute_faulted_state,
    fun i here h => execute_of_not_traps h here, ?_⟩
  intro f t h events he
  obtain ⟨hf, rfl⟩ := step_faulted_iff.mp h
  exact step_faulted_iff.mpr ⟨fault_play hf he, rfl⟩

/-- A session whose next instruction, FF55, stores sixteen registers two bytes before the end of memory. -/
def pastEnd : Session where
  machine := { Machine.ofSeed 7 with
    memory := Memory.fresh.putAll 0x200 [0xFF, 0x55]
    registers := ⟨Vector.replicate 16 9, 0xFFE⟩ }
  keypad := Keypad.scripted [some 3]

theorem pastEnd_step : pastEnd.step = .faulted (.addressOutOfBounds 0x1000 0x200) pastEnd := by
  have hfetch : pastEnd.machine.fetch = .ok (0xFF55, .storeRegisters 15) :=
    Machine.fetch_of_program Memory.fresh [0xFF, 0x55] 0 rfl rfl (by decide) (by decide)
      (by decide) (by decide)
  refine step_faulted_iff.mpr ⟨?_, rfl⟩
  rw [Machine.fault_of_fetched hfetch]
  decide

/-- The store is refused in a step and by itself, and again after ticks, an attempt and with another keypad. -/
theorem failure_atomic_and_sticky_past_end :
    (∃ t, pastEnd.step = .faulted (.addressOutOfBounds 0x1000 0x200) t ∧ t = pastEnd) ∧
      (∃ t, pastEnd.execute (.storeRegisters 15) 0x300 =
        .faulted (.addressOutOfBounds 0x1000 0x300) t ∧ t = pastEnd) ∧
      (¬ pastEnd.Traps (.storeRegisters 15) ∧
        ((∃ t, pastEnd.execute (.storeRegisters 15) 0x300 = .done t) ∨
          ∃ f, pastEnd.execute (.storeRegisters 15) 0x300 = .faulted f pastEnd)) ∧
      (pastEnd.play [.tick 3, .keypad (.held 5), .step, .tick 1]).step =
        .faulted (.addressOutOfBounds 0x1000 0x200)
          (pastEnd.play [.tick 3, .keypad (.held 5), .step, .tick 1]) := by
  obtain ⟨hstep, hexec, hsettled, hsticky⟩ := failure_atomic_and_sticky pastEnd
  have htraps : ¬ pastEnd.Traps (.storeRegisters 15) := by
    change ¬ 15 < (15 : UInt8).toNat
    decide
  have hrefused : pastEnd.execute (.storeRegisters 15) 0x300 =
      .faulted (.addressOutOfBounds 0x1000 0x300) pastEnd :=
    execute_faulted_iff.mpr ⟨htraps, by decide, rfl⟩
  refine ⟨⟨_, pastEnd_step, hstep _ _ pastEnd_step⟩, ⟨_, hrefused, hexec _ _ _ _ hrefused⟩,
    ⟨htraps, hsettled _ _ htraps⟩, hsticky _ _ pastEnd_step _ ?_⟩
  simp [Event.IsPassive]

end Session

end Chip8
