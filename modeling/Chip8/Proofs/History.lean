import Chip8.Proofs.Effect
import Chip8.Proofs.Operation

/-!
# Executions

An execution is an instruction that was done, with the sessions before and after it. Whatever a host asks of a session
comes down to executions, one after the other, and to what happens beside them: fetching moves the program counter,
steps are counted, timers tick, images are loaded and keypads are exchanged. What holds of each of these, and of two
runs in a row if it holds of both, holds of every run.
-/
namespace Chip8

/-- An instruction that was done, fetched from `here`. The program counter of the session before it has moved
already. -/
structure Execution where
  before : Session
  instruction : Instruction
  here : Address
  after : Session
  done : before.execute instruction here = .done after

/-- What a host does: it asks for an operation, or has an instruction executed that it has made by hand. -/
inductive Action where
  | operation (o : Operation)
  | execute (i : Instruction) (here : Address)

namespace Run

variable {ticks : Nat → Nat} {first n : Nat} {e : Event}

theorem mem_rounds (h : e ∈ rounds ticks first n) : e = .step ∨ ∃ k, e = .tick k := by
  induction n generalizing first with
  | zero => exact absurd h List.not_mem_nil
  | succ n ih =>
    rcases List.mem_cons.mp h with htick | h
    · exact Or.inr ⟨_, htick⟩
    · rcases List.mem_cons.mp h with hstep | h
      · exact Or.inl hstep
      · exact ih h

/-- A run consists of steps and ticks. -/
theorem mem_events {p : Progress} (h : e ∈ p.events ticks) : e = .step ∨ ∃ k, e = .tick k := by
  cases p with
  | underway q => exact mem_rounds h
  | stopped why q =>
    cases why with
    | limit =>
      rcases List.mem_append.mp h with h | h
      · exact mem_rounds h
      · exact Or.inr ⟨_, List.mem_singleton.mp h⟩
    | fault | trap =>
      rcases List.mem_append.mp h with h | h
      · exact mem_rounds h
      · rcases List.mem_cons.mp h with htick | h
        · exact Or.inr ⟨_, htick⟩
        · exact Or.inl (List.mem_singleton.mp h)

end Run

namespace Session

/-- The execution of an instruction, if it is done. -/
def execution? (s : Session) (i : Instruction) (here : Address) : Option Execution :=
  match h : s.execute i here with
  | .done t => some ⟨s, i, here, t, h⟩
  | _ => none

/-- The execution that a step makes, if it is done. -/
def stepExecution? (s : Session) : Option Execution :=
  match s.machine.fetch with
  | .ok (_, i) => s.ahead.execution? i s.machine.pc
  | .error _ => none

def executionsBy (s : Session) : Event → List Execution
  | .step => s.stepExecution?.toList
  | _ => []

/-- The executions that the steps among the events make, the first one first. -/
def executions (s : Session) : List Event → List Execution
  | [] => []
  | e :: rest => s.executionsBy e ++ (s.after e).executions rest

def act (s : Session) : Action → Session
  | .operation o => s.perform o
  | .execute i here => (s.execute i here).state

def actAll (s : Session) (actions : List Action) : Session := actions.foldl act s

def executionsOf (s : Session) : Action → List Execution
  | .operation o => s.executions (s.eventsOf o)
  | .execute i here => (s.execution? i here).toList

/-- The executions that a list of actions comes to, the first one first. -/
def executionsAll (s : Session) : List Action → List Execution
  | [] => []
  | a :: rest => s.executionsOf a ++ (s.act a).executionsAll rest

variable {s t : Session} {i : Instruction} {here : Address} {f : Fault}

theorem actAll_append (s : Session) (first second : List Action) :
    s.actAll (first ++ second) = (s.actAll first).actAll second := List.foldl_append

theorem executionsAll_append (s : Session) (first second : List Action) :
    s.executionsAll (first ++ second) =
      s.executionsAll first ++ (s.actAll first).executionsAll second := by
  induction first generalizing s with
  | nil => rfl
  | cons a rest ih =>
    rw [List.cons_append, executionsAll, ih, executionsAll, List.append_assoc]
    rfl

theorem execution?_of_done (h : s.execute i here = .done t) :
    s.execution? i here = some ⟨s, i, here, t, h⟩ := by
  unfold execution?
  split
  · rename_i u hu
    have hut : u = t := by
      rw [h] at hu
      cases hu
      rfl
    subst hut
    rfl
  · rename_i hne
    exact absurd h (hne t)

theorem execution?_of_not_done (h : ∀ t, s.execute i here ≠ .done t) :
    s.execution? i here = none := by
  unfold execution?
  split
  · rename_i t ht
    exact absurd ht (h t)
  · rfl

/-- A step that is done makes an execution of the instruction that it fetched. -/
theorem stepExecution?_of_done (h : s.step = .done t) : ∃ e : Execution,
    s.stepExecution? = some e ∧ e.before = s.ahead ∧
      (∃ w, s.machine.fetch = .ok (w, e.instruction)) ∧ t = e.after.count := by
  obtain ⟨w, i, u, hfetch, he, rfl⟩ := step_done h
  refine ⟨⟨s.ahead, i, s.machine.pc, u, he⟩, ?_, rfl, ⟨w, hfetch⟩, rfl⟩
  rw [stepExecution?, hfetch]
  exact execution?_of_done he

theorem stepExecution?_of_faulted (h : s.step = .faulted f t) : s.stepExecution? = none := by
  cases hfetch : s.machine.fetch with
  | error g => rw [stepExecution?, hfetch]
  | ok p =>
    obtain ⟨w, i⟩ := p
    rw [stepExecution?, hfetch]
    apply execution?_of_not_done
    intro u hu
    rw [step_of_ok hfetch, hu] at h
    cases h

/-- An instruction that traps leaves the machine alone. It may have asked the keypad. -/
theorem execute_trapped_machine {trap : Trap} (h : s.execute i here = .trapped trap t) :
    t.machine = s.machine := by
  have hjump : ∀ {u : Session} {start offset}, u.jumpBy start offset = .trapped trap t →
      t.machine = u.machine := by
    intro u start offset hu
    unfold jumpBy at hu
    cases hp : start.plus? offset with
    | some pc =>
      rw [hp] at hu
      cases hu
    | none =>
      rw [hp] at hu
      cases hu
      rfl
  have hskip : ∀ {u : Session} {condition}, u.skipIf condition = .trapped trap t →
      t.machine = u.machine := by
    intro u condition hu
    cases condition with
    | true => exact hjump hu
    | false => cases hu
  have hsettles := s.execute_settles i here
  rw [h] at hsettles
  cases i with
  | skipIfEqual | skipIfNotEqual | skipIfSame | skipIfDifferent => exact hskip h
  | skipIfKey | skipIfNotKey => exact hskip (u := s.query.2) h
  | jumpOffset nnn => exact hjump h
  | storeRegisters x =>
    have hx : ¬ x.toNat < 16 := Nat.not_lt.mpr hsettles
    simp only [execute, Registers.upTo?, if_neg hx] at h
    cases h
    rfl
  | _ => exact absurd hsettles.1 Bool.false_ne_true

end Session

/-- A relation between sessions and the executions that lead from one to the other. It holds of an execution and of what
comes with steps and ticks, and of two runs in a row if it holds of both. -/
structure Composes (R : Session → List Execution → Session → Prop) : Prop where
  refl : ∀ s, R s [] s
  trans : ∀ {s t u first second}, R s first t → R t second u → R s (first ++ second) u
  execution : ∀ e : Execution, R e.before [e] e.after
  setPc : ∀ s pc, R s [] (s.setPc pc)
  count : ∀ s, R s [] s.count
  setTimers : ∀ s timers, R s [] (s.setTimers timers)

/-- Whether a relation allows what an event does if it is neither a step nor a tick. -/
def Event.Fits (R : Session → List Execution → Session → Prop) : Event → Prop
  | keypad k => ∀ s : Session, R s [] { s with keypad := k }
  | edit _ => False
  | _ => True

/-- Whether a relation allows what an action does beside its executions. -/
def Action.Fits (R : Session → List Execution → Session → Prop) : Action → Prop
  | operation (.load image) =>
    ∀ s : Session, R s [] { s with machine := (s.machine.load image).state }
  | operation (.keypad k) => ∀ s : Session, R s [] { s with keypad := k }
  | execute i here => ∀ (s : Session) trap t, s.execute i here = .trapped trap t → R s [] t
  | _ => True

variable {R : Session → List Execution → Session → Prop}

/-- What leaves the machine alone fits a relation that does not speak of the rest, so only loads are left. -/
theorem Action.fits_of_same {a : Action}
    (hsame : ∀ {s t : Session}, t.machine = s.machine → R s [] t)
    (hload : ∀ image, a = .operation (.load image) →
      ∀ s : Session, R s [] { s with machine := (s.machine.load image).state }) : a.Fits R := by
  cases a with
  | operation o =>
    cases o with
    | load image => exact hload image rfl
    | keypad k => exact fun s => hsame rfl
    | step | run | tick => trivial
  | execute i here => exact fun s trap t h => hsame (Session.execute_trapped_machine h)

namespace Composes

theorem step (hR : Composes R) (s : Session) :
    R s s.stepExecution?.toList (s.after .step) := by
  cases h : s.step with
  | done t =>
    obtain ⟨e, he, hbefore, _, rfl⟩ := Session.stepExecution?_of_done h
    rw [Session.after_step_of_done h, he]
    have hahead : R s [] e.before := by
      rw [hbefore]
      exact hR.setPc s _
    exact hR.trans hahead (hR.trans (hR.execution e) (hR.count e.after))
  | faulted f t =>
    rw [Session.after_step_of_faulted h, Session.stepExecution?_of_faulted h]
    exact hR.refl s
  | trapped trap t => exact absurd h Session.step_ne_trapped

theorem after (hR : Composes R) (s : Session) {e : Event} (he : e.Fits R) :
    R s (s.executionsBy e) (s.after e) := by
  cases e with
  | step => exact hR.step s
  | tick n => exact hR.setTimers s _
  | keypad k => exact he s
  | edit u => exact he.elim

theorem play (hR : Composes R) (s : Session) {events : List Event}
    (hevents : ∀ e ∈ events, e.Fits R) : R s (s.executions events) (s.play events) := by
  induction events generalizing s with
  | nil => exact hR.refl s
  | cons e rest ih =>
    have hhere := hR.after s (hevents e List.mem_cons_self)
    have hrest := ih (s.after e) fun e' h' => hevents e' (List.mem_cons_of_mem e h')
    exact hR.trans hhere hrest

theorem act (hR : Composes R) (s : Session) {a : Action} (ha : a.Fits R) :
    R s (s.executionsOf a) (s.act a) := by
  cases a with
  | operation o =>
    cases o with
    | load image => exact ha s
    | step =>
      have hevents : ∀ e ∈ s.eventsOf .step, e.Fits R := by
        intro e he
        rw [List.mem_singleton.mp he]
        trivial
      exact hR.play s hevents
    | run ticks patience =>
      have hevents : ∀ e ∈ s.eventsOf (.run ticks patience), e.Fits R := by
        intro e he
        rcases Run.mem_events he with rfl | ⟨k, rfl⟩
        · trivial
        · trivial
      have hrun := hR.play s hevents
      rw [Session.eventsOf, ← Run.run_session] at hrun
      exact hrun
    | tick n => exact hR.setTimers s _
    | keypad k => exact ha s
  | execute i here =>
    cases h : s.execute i here with
    | done t =>
      rw [Session.act, Session.executionsOf, Session.execution?_of_done h, h]
      exact hR.execution ⟨s, i, here, t, h⟩
    | faulted f t =>
      have hstate : t = s := (Session.execute_faulted_iff.mp h).2.2
      have hnone := Session.execution?_of_not_done fun u hu => nomatch h.symm.trans hu
      rw [Session.act, Session.executionsOf, hnone, h, hstate]
      exact hR.refl s
    | trapped trap t =>
      have hnone := Session.execution?_of_not_done fun u hu => nomatch h.symm.trans hu
      rw [Session.act, Session.executionsOf, hnone, h]
      exact ha s trap t h

/-- The induction over all that a host does, made once for every such relation. -/
theorem actAll (hR : Composes R) (s : Session) {actions : List Action}
    (hactions : ∀ a ∈ actions, a.Fits R) :
    R s (s.executionsAll actions) (s.actAll actions) := by
  induction actions generalizing s with
  | nil => exact hR.refl s
  | cons a rest ih =>
    have hhere := hR.act s (hactions a List.mem_cons_self)
    have hrest := ih (s.act a) fun a' h' => hactions a' (List.mem_cons_of_mem a h')
    exact hR.trans hhere hrest

end Composes

end Chip8
