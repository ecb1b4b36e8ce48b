import Chip8.Proofs.Stepping

/-!
# What an instruction leaves alone

Only a call and a return move the call stack, and no instruction counts itself or changes how the machine is
configured. This holds of whatever state an execution leaves, also of one that fails or traps.
-/
namespace Chip8

/-- The call stack after an instruction. -/
def Machine.stackAfter (m : Machine) : Instruction → CallStack
  | .call _ => m.stack.push m.pc
  | .ret => ⟨m.stack.frames.tail⟩
  | _ => m.stack

namespace Session

structure Framed (s : Session) (i : Instruction) (t : Session) : Prop where
  stack : t.machine.stack = s.machine.stackAfter i
  cycles : t.machine.cycles = s.machine.cycles
  config : t.machine.config = s.machine.config

variable {s t u : Session} {i : Instruction} {here : Address}

theorem jumpBy_state (s : Session) (start : Address) (offset : Nat) :
    ∃ pc, (s.jumpBy start offset).state = s.setPc pc := by
  unfold jumpBy
  cases start.plus? offset with
  | none => exact ⟨s.machine.pc, rfl⟩
  | some pc => exact ⟨pc, rfl⟩

theorem skipIf_state (s : Session) (condition : Bool) :
    ∃ pc, (s.skipIf condition).state = s.setPc pc := by
  unfold skipIf
  cases condition with
  | false => exact ⟨s.machine.pc, rfl⟩
  | true => exact s.jumpBy_state s.machine.pc 2

theorem framed_setPc (hu : s.Framed i u) (ht : ∃ pc, t = u.setPc pc) : s.Framed i t := by
  obtain ⟨pc, rfl⟩ := ht
  exact ⟨hu.stack, hu.cycles, hu.config⟩

theorem framed_store (hi : s.machine.stackAfter i = s.machine.stack) (values : List UInt8) :
    s.Framed i (s.store values here).state := by
  unfold store
  cases s.machine.memory.write s.machine.registers.index.toNat values with
  | ok memory => exact ⟨hi.symm, rfl, rfl⟩
  | error e => exact ⟨hi.symm, rfl, rfl⟩

theorem execute_framed (s : Session) (i : Instruction) (here : Address) :
    s.Framed i (s.execute i here).state := by
  cases i with
  | ret =>
    cases hs : s.machine.stack.frames with
    | nil =>
      simp only [execute, CallStack.pop?, hs]
      refine ⟨?_, rfl, rfl⟩
      change s.machine.stack = ⟨s.machine.stack.frames.tail⟩
      rw [hs]
      exact congrArg CallStack.mk hs
    | cons a rest =>
      simp only [execute, CallStack.pop?, hs]
      refine ⟨?_, rfl, rfl⟩
      change (⟨rest⟩ : CallStack) = ⟨s.machine.stack.frames.tail⟩
      rw [hs]
      rfl
  | skipIfEqual | skipIfNotEqual | skipIfSame | skipIfDifferent =>
    exact framed_setPc ⟨rfl, rfl, rfl⟩ (s.skipIf_state _)
  | skipIfKey | skipIfNotKey =>
    exact framed_setPc (u := s.query.2) ⟨rfl, rfl, rfl⟩ (s.query.2.skipIf_state _)
  | jumpOffset nnn => exact framed_setPc ⟨rfl, rfl, rfl⟩ (s.jumpBy_state _ _)
  | waitKey x =>
    cases hk : s.keypad.answer s.keypad.queries with
    | none => simp only [execute, query, Keypad.query, hk]; exact ⟨rfl, rfl, rfl⟩
    | some key => simp only [execute, query, Keypad.query, hk]; exact ⟨rfl, rfl, rfl⟩
  | loadGlyph x =>
    obtain ⟨glyph, hg⟩ := glyphAddress_isSome s.machine.registers x
    simp only [execute, hg]
    exact ⟨rfl, rfl, rfl⟩
  | draw x y n =>
    simp only [execute]
    cases s.machine.memory.read s.machine.registers.index.toNat n.toNat with
    | ok sprite => exact ⟨rfl, rfl, rfl⟩
    | error e => exact ⟨rfl, rfl, rfl⟩
  | loadRegisters x =>
    simp only [execute]
    cases s.machine.memory.read s.machine.registers.index.toNat (x.toNat + 1) with
    | ok values => exact ⟨rfl, rfl, rfl⟩
    | error e => exact ⟨rfl, rfl, rfl⟩
  | storeDecimal x => exact framed_store rfl _
  | storeRegisters x =>
    simp only [execute]
    cases s.machine.registers.upTo? x with
    | none => exact ⟨rfl, rfl, rfl⟩
    | some values => exact framed_store rfl values
  | _ => exact ⟨rfl, rfl, rfl⟩

/-- A step that is done counts one instruction and moves the call stack as that instruction does. -/
theorem step_framed (h : s.step = .done t) : ∃ w i,
    s.machine.fetch = .ok (w, i) ∧ t.machine.stack = s.ahead.machine.stackAfter i ∧
      t.machine.cycles = s.machine.cycles + 1 ∧ t.machine.config = s.machine.config := by
  obtain ⟨w, i, u, hfetch, he, rfl⟩ := step_done h
  have hframed := s.ahead.execute_framed i s.machine.pc
  rw [he] at hframed
  exact ⟨w, i, hfetch, hframed.stack, congrArg (· + 1) hframed.cycles, hframed.config⟩

end Session

end Chip8
