import Chip8.Proofs.Event
import Chip8.Proofs.Frame
import Mathlib.Data.List.Induction

/-!
# Subroutines

A call puts its return address on the stack, and what lies below that address stays as it is until the matching
return takes the address away again. What a program does in between is of no account: only calls and returns move the
stack, and each of them moves it by one address.
-/
namespace Chip8

namespace Session

variable {s t : Session}

theorem execute_ret_done {here : Address} (h : s.execute .ret here = .done t) :
    s.machine.stack.frames = t.machine.pc :: t.machine.stack.frames := by
  simp only [execute] at h
  cases hp : s.machine.stack.pop? with
  | none =>
    rw [hp] at h
    cases h
  | some p =>
    obtain ⟨pc, stack⟩ := p
    rw [hp] at h
    cases h
    exact CallStack.pop?_eq_some_iff.mp hp

/-- A step that executes a return. -/
def Returns (s t : Session) : Prop :=
  s.machine.fetch = .ok (0x00EE, .ret) ∧ s.step = .done t

/-- A step that executes a call, with `back` as the address to return to. -/
def Calls (s : Session) (back : Address) : Prop :=
  ∃ w nnn t, s.machine.fetch = .ok (w, .call nnn) ∧ s.step = .done t ∧
    back.toNat = s.machine.pc.toNat + 2

/-- The three ways in which a step that is done can move the call stack. -/
theorem step_stack_cases (h : s.step = .done t) :
    t.machine.stack.frames = s.machine.stack.frames ∨
      (∃ back, s.Calls back ∧ t.machine.stack.frames = back :: s.machine.stack.frames) ∨
      (s.Returns t ∧ s.machine.stack.frames = t.machine.pc :: t.machine.stack.frames) := by
  obtain ⟨w, i, u, hfetch, he, rfl⟩ := step_done h
  have hframed := s.ahead.execute_framed i s.machine.pc
  rw [he] at hframed
  have hstack := congrArg CallStack.frames hframed.stack
  obtain ⟨hp, hw, hd⟩ := Machine.fetch_eq_ok_iff.mp hfetch
  cases i with
  | call nnn =>
    exact Or.inr (Or.inl ⟨_, ⟨w, nnn, _, hfetch, h, toNat_pc_ahead hp⟩, hstack⟩)
  | ret =>
    obtain rfl := hw.trans (Instruction.decode_eq_ret_iff.mp hd)
    have hpop := execute_ret_done he
    exact Or.inr (Or.inr ⟨⟨hfetch, h⟩, hpop⟩)
  | _ => exact Or.inl hstack

/-- Of all events only a step moves the call stack, and a step that fails does not. -/
theorem after_stack_cases (s : Session) (e : Event) :
    (s.after e).machine.stack.frames = s.machine.stack.frames ∨
      (e = .step ∧ ∃ back, s.Calls back ∧
        (s.after e).machine.stack.frames = back :: s.machine.stack.frames) ∨
      (e = .step ∧ s.Returns (s.after e) ∧
        s.machine.stack.frames =
          (s.after e).machine.pc :: (s.after e).machine.stack.frames) := by
  cases e with
  | step =>
    cases h : s.step with
    | done t =>
      have hafter : s.after .step = t := congrArg Outcome.state h
      rw [hafter]
      rcases step_stack_cases h with hsame | hcall | hret
      · exact Or.inl hsame
      · exact Or.inr (Or.inl ⟨rfl, hcall⟩)
      · exact Or.inr (Or.inr ⟨rfl, hret⟩)
    | faulted f t =>
      obtain ⟨_, rfl⟩ := step_faulted_iff.mp h
      have hafter : t.after .step = t := congrArg Outcome.state h
      rw [hafter]
      exact Or.inl rfl
    | trapped trap t => exact absurd h step_ne_trapped
  | tick n => exact Or.inl rfl
  | keypad k => exact Or.inl rfl
  | edit t => exact Or.inl rfl

/-- The address after a call that is made while `events` are played. -/
def CalledIn (s : Session) (events : List Event) (back : Address) : Prop :=
  ∃ before, before ++ [.step] <+: events ∧ (s.play before).Calls back

/-- After `events` the stack still holds `back` on top of `below`, and above it addresses that calls have put
there. -/
def Within (s : Session) (events : List Event) (back : Address) (below : List Address) : Prop :=
  ∃ inner, (s.play events).machine.stack.frames = inner ++ back :: below ∧
    ∀ a ∈ inner, s.CalledIn events a

variable {events : List Event} {e : Event} {a back : Address} {below : List Address}

theorem calledIn_concat (h : s.CalledIn events a) : s.CalledIn (events ++ [e]) a := by
  obtain ⟨before, hbefore, hcalls⟩ := h
  exact ⟨before, hbefore.trans (List.prefix_append events [e]), hcalls⟩

/-- One event keeps the return address where it is, or is the return that takes it. -/
theorem within_concat (h : s.Within events back below) (e : Event) :
    s.Within (events ++ [e]) back below ∨
      (e = .step ∧ (s.play events).Returns (s.play (events ++ [e])) ∧
        (s.play (events ++ [e])).machine.stack.frames = below ∧
        (s.play (events ++ [e])).machine.pc = back) := by
  obtain ⟨inner, hframes, hinner⟩ := h
  have hinner' : ∀ a ∈ inner, s.CalledIn (events ++ [e]) a :=
    fun a ha => calledIn_concat (hinner a ha)
  rcases (s.play events).after_stack_cases e with
    hsame | ⟨rfl, back', hcalls, hpush⟩ | ⟨rfl, hreturns, hpop⟩
  · rw [← play_concat] at hsame
    exact Or.inl ⟨inner, hsame.trans hframes, hinner'⟩
  · rw [← play_concat] at hpush
    refine Or.inl ⟨back' :: inner, ?_, ?_⟩
    · rw [hpush, hframes]
      rfl
    · intro a ha
      rcases List.mem_cons.mp ha with rfl | ha
      · exact ⟨events, List.prefix_refl _, hcalls⟩
      · exact hinner' a ha
  · rw [← play_concat] at hreturns hpop
    rw [hframes] at hpop
    cases inner with
    | nil =>
      obtain ⟨hpc, hbelow⟩ := List.cons.inj hpop
      exact Or.inr ⟨rfl, hreturns, hbelow.symm, hpc.symm⟩
    | cons top inner =>
      obtain ⟨_, hrest⟩ := List.cons.inj hpop
      exact Or.inl ⟨inner, hrest.symm, fun a ha => hinner' a (List.mem_cons_of_mem top ha)⟩

/-- While the stack does not come down to `below`, the return address stays on top of it. -/
theorem within_play (hs : s.machine.stack.frames = back :: below)
    (hdepth : ∀ before, before <+: events → before ≠ [] →
      (s.play before).machine.stack.depth ≠ below.length) : s.Within events back below := by
  induction events using List.reverseRecOn with
  | nil => exact ⟨[], hs, fun a ha => absurd ha List.not_mem_nil⟩
  | append_singleton events e ih =>
    have hwithin := ih fun before hbefore =>
      hdepth before (hbefore.trans (List.prefix_append events [e]))
    rcases within_concat hwithin e with hnext | ⟨_, _, hbelow, _⟩
    · exact hnext
    · have hne := hdepth (events ++ [e]) (List.prefix_refl _) (List.concat_ne_nil e events)
      rw [CallStack.depth, hbelow] at hne
      exact absurd rfl hne

theorem depth_ne_of_within (h : s.Within events back below) :
    (s.play events).machine.stack.depth ≠ below.length := by
  obtain ⟨inner, hframes, _⟩ := h
  rw [CallStack.depth, hframes, List.length_append, List.length_cons]
  omega

/-- A call puts the address of the next instruction on the caller's stack. It is matched by the first return that brings
the stack down to where it was. Until then the return address lies on the caller's stack with addresses of later calls
above it, and that return leaves the caller's stack and goes to the instruction after the call. -/
theorem call_returns {w : Word} {nnn : Address} (hfetch : s.machine.fetch = .ok (w, .call nnn))
    (hcall : s.step = .done t) :
    ∃ back : Address, back.toNat = s.machine.pc.toNat + 2 ∧
      t.machine.stack.frames = back :: s.machine.stack.frames ∧
      ∀ events : List Event,
        (∀ before, before <+: events → before ≠ [] →
          (t.play before).machine.stack.depth ≠ s.machine.stack.depth) →
        t.Within events back s.machine.stack.frames ∧
          ∀ e, (t.play (events ++ [e])).machine.stack.depth = s.machine.stack.depth →
            e = .step ∧ (t.play events).Returns (t.play (events ++ [e])) ∧
              (t.play (events ++ [e])).machine.stack = s.machine.stack ∧
              (t.play (events ++ [e])).machine.pc = back := by
  obtain ⟨hp, _, _⟩ := Machine.fetch_eq_ok_iff.mp hfetch
  have hpushed : t.machine.stack.frames = s.ahead.machine.pc :: s.machine.stack.frames := by
    obtain ⟨_, i, hf, hstack, _, _⟩ := step_framed hcall
    rw [hfetch] at hf
    cases hf
    exact congrArg CallStack.frames hstack
  refine ⟨s.ahead.machine.pc, toNat_pc_ahead hp, hpushed, ?_⟩
  intro events hdepth
  have hwithin := within_play hpushed hdepth
  refine ⟨hwithin, ?_⟩
  intro e hback
  rcases within_concat hwithin e with hnext | ⟨he, hreturns, hbelow, hpc⟩
  · exact absurd hback (depth_ne_of_within hnext)
  · exact ⟨he, hreturns, congrArg CallStack.mk hbelow, hpc⟩

/-- A call at 0x200 of the subroutine at 0x204, which returns at once. -/
def callAndReturn : List UInt8 := [0x22, 0x04, 0x12, 0x02, 0x00, 0xEE]

/-- A session that is inside a subroutine already and is about to make the call. -/
def caller : Session where
  machine := { Machine.ofSeed 7 with
    memory := Memory.fresh.putAll 0x200 callAndReturn
    stack := ⟨[0x300]⟩ }
  keypad := Keypad.untouched

def callee : Session where
  machine := { caller.machine with pc := 0x204, stack := ⟨[0x202, 0x300]⟩, cycles := 1 }
  keypad := Keypad.untouched

theorem caller_fetch : caller.machine.fetch = .ok (0x2204, .call 0x204) :=
  Machine.fetch_of_program Memory.fresh callAndReturn 0 rfl rfl (by decide) (by decide)
    (by decide) (by decide)

theorem caller_step : caller.step = .done callee := by
  rw [step_of_ok caller_fetch]
  rfl

theorem callee_fetch : (callee.play [.tick 1]).machine.fetch = .ok (0x00EE, .ret) := by
  have hpc : (callee.play [.tick 1]).machine.pc = 0x204 := rfl
  exact Machine.fetch_of_program Memory.fresh callAndReturn 4 rfl (by rw [hpc]; decide)
    (by decide) (by decide) (by decide) (by decide)

def returned : Session where
  machine := { (callee.play [.tick 1]).machine with pc := 0x202, stack := ⟨[0x300]⟩, cycles := 2 }
  keypad := Keypad.untouched

theorem callee_step : (callee.play [.tick 1]).step = .done returned := by
  rw [step_of_ok callee_fetch]
  rfl

/-- The call puts 0x202 on the stack of the caller. After a tick the return leads there and leaves that stack. -/
theorem call_returns_caller :
    ∃ t back, caller.step = .done t ∧ back = 0x202 ∧
      t.machine.stack.frames = [back, 0x300] ∧ t.Within [.tick 1] back [0x300] ∧
      (t.play [.tick 1]).Returns (t.play ([.tick 1] ++ [.step])) ∧
      (t.play ([.tick 1] ++ [.step])).machine.stack.frames = [0x300] ∧
      (t.play ([.tick 1] ++ [.step])).machine.pc = back := by
  obtain ⟨back, hback, hpushed, hrun⟩ := call_returns caller_fetch caller_step
  have hdepth : ∀ before, before <+: [.tick 1] → before ≠ [] →
      (callee.play before).machine.stack.depth ≠ caller.machine.stack.depth := by
    intro before hbefore hnonempty
    rcases List.prefix_cons_iff.mp hbefore with rfl | ⟨rest, rfl, hrest⟩
    · exact absurd rfl hnonempty
    · rw [List.prefix_nil.mp hrest]
      decide
  obtain ⟨hwithin, hnext⟩ := hrun [.tick 1] hdepth
  have hplay : callee.play ([.tick 1] ++ [.step]) = returned := by
    rw [play_concat, after, callee_step]
    rfl
  have hdown : (callee.play ([.tick 1] ++ [.step])).machine.stack.depth =
      caller.machine.stack.depth := by
    rw [hplay]
    rfl
  obtain ⟨_, hreturns, hstack, hpc⟩ := hnext .step hdown
  exact ⟨callee, back, caller_step, UInt16.toNat_inj.mp hback, hpushed, hwithin, hreturns,
    congrArg CallStack.frames hstack, hpc⟩

end Session

end Chip8
