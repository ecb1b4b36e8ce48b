import Chip8.Proofs.Countdown
import Chip8.Proofs.History

/-!
# Accesses to the timers

Programs and clocks get at the two timers by setting, reading and ticking one of them at a time. Neither timer has a part
in what becomes of the other, so each stands where the accesses to itself have brought it, and the tones heard are the
ticks that counted the sound timer down.
-/
namespace Chip8

namespace Timers

inductive Name where
  | delay
  | sound
deriving DecidableEq, Repr

structure Access where
  timer : Name
  op : Timer.Op
deriving DecidableEq, Repr

def value (t : Timers) : Name → UInt8
  | .delay => t.delay
  | .sound => t.sound

/-- The timers after an access, and whether a tone is heard. -/
def access (t : Timers) : Access → Timers × Bool
  | ⟨.delay, .set value⟩ => ({ t with delay := value }, false)
  | ⟨.delay, .tick⟩ => (t.tickDelay, false)
  | ⟨.sound, .set value⟩ => ({ t with sound := value }, false)
  | ⟨.sound, .tick⟩ => t.tickSound
  | ⟨_, .get⟩ => (t, false)

/-- The timers after a list of accesses, and the number of tones heard. -/
def accessAll (t : Timers) : List Access → Timers × Nat
  | [] => (t, 0)
  | a :: rest =>
    let next := t.access a
    let last := next.1.accessAll rest
    (last.1, next.2.toNat + last.2)

/-- What an access reads of a timer, if it reads it. -/
def reading? (t : Timers) (x : Name) (a : Access) : Option UInt8 :=
  if a = ⟨x, .get⟩ then some (t.value x) else none

/-- What is done to one timer, in order. -/
def Access.on (x : Name) (accesses : List Access) : List Timer.Op :=
  (accesses.filter fun a => a.timer = x).map op

/-- The accesses of so many ticks of both timers. -/
def wholeTicks (n : Nat) : List Access :=
  (List.replicate n [⟨.delay, .tick⟩, ⟨.sound, .tick⟩]).flatten

variable {t u : Timers}

theorem ext_value (h : ∀ x, t.value x = u.value x) : t = u := by
  obtain ⟨delay, sound⟩ := t
  obtain ⟨delay', sound'⟩ := u
  have hdelay : delay = delay' := h .delay
  have hsound : sound = sound' := h .sound
  rw [hdelay, hsound]

/-! ## One timer at a time -/

theorem on_append (x : Name) (first second : List Access) :
    Access.on x (first ++ second) = Access.on x first ++ Access.on x second := by
  simp [Access.on]

theorem on_cons (x : Name) (a : Access) (rest : List Access) :
    Access.on x (a :: rest) = Access.on x [a] ++ Access.on x rest := on_append x [a] rest

theorem value_access (t : Timers) (x : Name) (a : Access) :
    (t.access a).1.value x = Timer.afterAll (t.value x) (Access.on x [a]) := by
  obtain ⟨timer, op⟩ := a
  cases x <;> cases timer <;> cases op <;> rfl

theorem tone_access (t : Timers) (a : Access) :
    (t.access a).2.toNat = Timer.counted t.sound (Access.on .sound [a]) := by
  obtain ⟨timer, op⟩ := a
  cases timer <;> cases op <;> rfl

theorem reading?_toList (t : Timers) (x : Name) (a : Access) :
    (t.reading? x a).toList = Timer.readings (t.value x) (Access.on x [a]) := by
  obtain ⟨timer, op⟩ := a
  cases x <;> cases timer <;> cases op <;> rfl

/-- A timer stands where the accesses to itself have brought it. -/
theorem value_accessAll (t : Timers) (x : Name) (accesses : List Access) :
    (t.accessAll accesses).1.value x = Timer.afterAll (t.value x) (Access.on x accesses) := by
  induction accesses generalizing t with
  | nil => rfl
  | cons a rest ih =>
    rw [on_cons, Timer.afterAll_append, ← value_access]
    exact ih (t.access a).1

/-- The tones heard are the ticks that counted the sound timer down. -/
theorem tones_accessAll (t : Timers) (accesses : List Access) :
    (t.accessAll accesses).2 = Timer.counted t.sound (Access.on .sound accesses) := by
  induction accesses generalizing t with
  | nil => rfl
  | cons a rest ih =>
    have hsound : (t.access a).1.sound = Timer.afterAll t.sound (Access.on .sound [a]) :=
      t.value_access .sound a
    rw [on_cons, Timer.counted_append, ← tone_access, ← hsound, ← ih]
    rfl

/-- Accesses that come in the same order on each timer come to the same. -/
theorem accessAll_congr (t : Timers) {first second : List Access}
    (h : ∀ x, Access.on x first = Access.on x second) :
    t.accessAll first = t.accessAll second := by
  refine Prod.ext (ext_value fun x => ?_) ?_
  · rw [value_accessAll, value_accessAll, h]
  · rw [tones_accessAll, tones_accessAll, h]

/-! ## Several accesses -/

theorem accessAll_append (t : Timers) (first second : List Access) :
    t.accessAll (first ++ second) =
      (((t.accessAll first).1.accessAll second).1,
        (t.accessAll first).2 + ((t.accessAll first).1.accessAll second).2) := by
  induction first generalizing t with
  | nil => simp [accessAll]
  | cons a rest ih =>
    simp only [List.cons_append, accessAll, ih, Nat.add_assoc]

theorem accessAll_tick (t : Timers) :
    t.accessAll [⟨.delay, .tick⟩, ⟨.sound, .tick⟩] = (t.tick.1, t.tick.2.toNat) := by
  refine Prod.ext rfl ?_
  exact Nat.zero_add _

theorem wholeTicks_succ (n : Nat) :
    wholeTicks (n + 1) = wholeTicks n ++ [⟨.delay, .tick⟩, ⟨.sound, .tick⟩] := by
  rw [wholeTicks, List.replicate_succ', List.flatten_append]
  rfl

theorem on_wholeTicks (x : Name) (n : Nat) :
    Access.on x (wholeTicks n) = List.replicate n .tick := by
  induction n with
  | zero => rfl
  | succ n ih =>
    rw [wholeTicks_succ, on_append, ih, List.replicate_succ']
    cases x <;> rfl

/-- Ticks of both timers are accesses to the one and the other in turn. -/
theorem tickMany_eq (n : Nat) (t : Timers) : t.tickMany n = t.accessAll (wholeTicks n) := by
  induction n with
  | zero => rfl
  | succ n ih =>
    rw [wholeTicks_succ, accessAll_append, ← ih, accessAll_tick]
    rfl

/-- Both timers run out within as many ticks as the greater of them says, and the sound timer is heard as often as its
value says. -/
theorem tickMany_of_le {n : Nat} (h : ∀ x, (t.value x).toNat ≤ n) :
    t.tickMany n = (stopped, t.sound.toNat) := by
  rw [tickMany_eq]
  refine Prod.ext (ext_value fun x => UInt8.toNat_inj.mp ?_) ?_
  · rw [value_accessAll, on_wholeTicks, Timer.toNat_afterAll_ticks, Nat.sub_eq_zero_of_le (h x)]
    cases x <;> rfl
  · rw [tones_accessAll, on_wholeTicks, Timer.counted_ticks]
    exact Nat.min_eq_left (h .sound)

end Timers

/-! ## Accesses of a program -/

/-- The access to a timer that an instruction makes, if it makes one. -/
def Instruction.access? (r : Registers) : Instruction → Option Timers.Access
  | readDelay _ => some ⟨.delay, .get⟩
  | setDelay x => some ⟨.delay, .set (r.get x)⟩
  | setSound x => some ⟨.sound, .set (r.get x)⟩
  | _ => none

namespace Execution

def accesses (e : Execution) : List Timers.Access :=
  (e.instruction.access? e.before.machine.registers).toList

/-- An execution does to the timers what its access does, and no tone is heard of it. -/
theorem accessAll_accesses (e : Execution) :
    e.before.machine.timers.accessAll e.accesses = (e.after.machine.timers, 0) := by
  have hafter : e.after = e.before.effect e.instruction e.here := Session.execute_done_eq e.done
  rw [accesses, hafter]
  cases e.instruction <;> rfl

/-- What the access of Fx07 reads goes to the register. -/
theorem takes_of_readDelay (e : Execution) {x : UInt8} (h : e.instruction = .readDelay x) :
    e.before.machine.registers.Takes x (e.before.machine.timers.value .delay)
      e.after.machine.registers := by
  rw [Session.execute_done_eq e.done, h]
  exact Registers.takes_set _ _ _

end Execution

end Chip8
