import Chip8.Proofs.Stepping

/-!
# Timers and configuration

No instruction reads the configuration, and only Fx07 reads a timer. So a session does under other timers and another
configuration what it does under its own, and leaves them alone, but for Fx15 and Fx18, which set a timer.
-/
namespace Chip8

namespace Outcome

variable {σ τ : Type} {f g : σ → τ}

theorem state_map (f : σ → τ) (o : Outcome σ) : (o.map f).state = f o.state := by
  cases o <;> rfl

theorem map_congr {o : Outcome σ} (h : f o.state = g o.state) : o.map f = o.map g := by
  cases o with
  | done s => exact congrArg Outcome.done h
  | faulted fault s => exact congrArg (Outcome.faulted fault) h
  | trapped trap s => exact congrArg (Outcome.trapped trap) h

end Outcome

/-- The timers after an instruction. -/
def Timers.after (timers : Timers) (r : Registers) : Instruction → Timers
  | .setDelay x => { timers with delay := r.get x }
  | .setSound x => { timers with sound := r.get x }
  | _ => timers

/-- The timers after a step. -/
def Machine.timersAfter (m : Machine) (timers : Timers) : Timers :=
  match m.fetch with
  | .ok (_, i) => timers.after m.registers i
  | .error _ => timers

namespace Session

/-- The session under other timers and another configuration. -/
def under (s : Session) (timers : Timers) (config : Config) : Session :=
  { s with machine := { s.machine with timers := timers, config := config } }

theorem under_self (s : Session) : s.under s.machine.timers s.machine.config = s := rfl

variable {timers : Timers} {config : Config} {here : Address}

theorem jumpBy_under (s : Session) (start : Address) (offset : Nat) :
    (s.under timers config).jumpBy start offset =
      (s.jumpBy start offset).map fun t => t.under timers config := by
  unfold jumpBy
  cases start.plus? offset with
  | none => rfl
  | some pc => rfl

theorem skipIf_under (s : Session) (condition : Bool) :
    (s.under timers config).skipIf condition =
      (s.skipIf condition).map fun t => t.under timers config := by
  cases condition with
  | false => rfl
  | true => exact s.jumpBy_under s.machine.pc 2

theorem store_under (s : Session) (values : List UInt8) :
    (s.under timers config).store values here =
      (s.store values here).map fun t => t.under timers config := by
  have hwrite : (s.under timers config).machine.memory.write
      (s.under timers config).machine.registers.index.toNat values =
      s.machine.memory.write s.machine.registers.index.toNat values := rfl
  unfold store
  rw [hwrite]
  cases s.machine.memory.write s.machine.registers.index.toNat values with
  | ok memory => rfl
  | error e => rfl

theorem read_under (s : Session) {address length : Nat} {next next' : List UInt8 → Session}
    (hnext : ∀ bytes, next' bytes = (next bytes).under timers config) :
    (match s.machine.memory.read address length with
      | .ok bytes => Outcome.done (next' bytes)
      | .error e => .faulted (e.fault here) (s.under timers config)) =
      (match s.machine.memory.read address length with
        | .ok bytes => Outcome.done (next bytes)
        | .error e => .faulted (e.fault here) s).map
          fun t : Session => t.under timers config := by
  cases s.machine.memory.read address length with
  | ok bytes => exact congrArg Outcome.done (hnext bytes)
  | error e => rfl

/-- An instruction sees of timers and configuration at most the delay. -/
theorem execute_under (s : Session) (timers : Timers) (config : Config) (i : Instruction)
    (here : Address) (hread : ∀ x, i = .readDelay x → timers.delay = s.machine.timers.delay) :
    (s.under timers config).execute i here =
      (s.execute i here).map fun t =>
        t.under (timers.after s.machine.registers i) config := by
  cases i with
  | ret =>
    have hpop : (s.under timers config).machine.stack.pop? = s.machine.stack.pop? := rfl
    simp only [execute, hpop]
    cases s.machine.stack.pop? with
    | some p => rfl
    | none => rfl
  | skipIfEqual | skipIfNotEqual | skipIfSame | skipIfDifferent => exact s.skipIf_under _
  | skipIfKey | skipIfNotKey => exact s.query.2.skipIf_under _
  | jumpOffset nnn => exact s.jumpBy_under nnn _
  | readDelay x =>
    simp only [execute]
    change Outcome.done (s.setRegisters (s.machine.registers.set x timers.delay) |>.under _ _) = _
    rw [hread x rfl]
    rfl
  | waitKey x =>
    have hquery : (s.under timers config).query =
        (s.query.1, s.query.2.under timers config) := rfl
    simp only [execute, hquery]
    cases hk : s.query with
    | mk key t =>
      cases key with
      | none => rfl
      | some key => rfl
  | loadGlyph x =>
    obtain ⟨glyph, hg⟩ := glyphAddress_isSome s.machine.registers x
    have hg' : (s.under timers config).machine.registers.glyphAddress? x = some glyph := hg
    simp only [execute, hg, hg']
    rfl
  | draw x y n => exact s.read_under fun _ => rfl
  | loadRegisters x => exact s.read_under fun _ => rfl
  | storeDecimal x => exact s.store_under _
  | storeRegisters x =>
    have hupTo : (s.under timers config).machine.registers.upTo? x =
        s.machine.registers.upTo? x := rfl
    simp only [execute, hupTo]
    cases s.machine.registers.upTo? x with
    | some values => exact s.store_under values
    | none => rfl
  | _ => rfl

theorem step_under (s : Session) (timers : Timers) (config : Config)
    (hread : ∀ w x, s.machine.fetch = .ok (w, .readDelay x) →
      timers.delay = s.machine.timers.delay) :
    (s.under timers config).step =
      s.step.map fun t => t.under (s.machine.timersAfter timers) config := by
  have hsame : (s.under timers config).machine.fetch = s.machine.fetch := rfl
  cases hf : s.machine.fetch with
  | error f =>
    rw [step_of_error hf, step_of_error (hsame.trans hf), Machine.timersAfter, hf]
    rfl
  | ok p =>
    obtain ⟨w, i⟩ := p
    have hahead : (s.under timers config).ahead = s.ahead.under timers config := rfl
    have hpc : (s.under timers config).machine.pc = s.machine.pc := rfl
    rw [step_of_ok hf, step_of_ok (hsame.trans hf), Machine.timersAfter, hf, hahead, hpc,
      s.ahead.execute_under timers config i s.machine.pc fun x hx => hread w x (by rw [hf, hx])]
    cases s.ahead.execute i s.machine.pc with
    | done t => rfl
    | faulted f t => rfl
    | trapped trap t => rfl

/-- A step leaves the configuration alone, and sets the timers by itself. -/
theorem step_setting (s : Session) :
    s.step.state =
      s.step.state.under (s.machine.timersAfter s.machine.timers) s.machine.config := by
  have hself := s.step_under s.machine.timers s.machine.config fun _ _ _ => rfl
  rw [under_self] at hself
  exact (congrArg Outcome.state hself).trans (Outcome.state_map _ _)

/-- So what is read off the end of a step can be read off under these timers and this configuration. -/
theorem step_map_congr {τ : Type} {f g : Session → τ} (s : Session)
    (h : ∀ t : Session,
      f (t.under (s.machine.timersAfter s.machine.timers) s.machine.config) =
        g (t.under (s.machine.timersAfter s.machine.timers) s.machine.config)) :
    s.step.map f = s.step.map g := by
  apply Outcome.map_congr
  rw [s.step_setting]
  exact h _

end Session

end Chip8
