import Chip8.Timers.Basic
import Mathlib.Algebra.GroupWithZero.Nat
import Mathlib.Data.List.Induction

/-!
# Countdowns

A timer is set, read and ticked in any order. Where it stands is the value set last less the ticks since then, and zero
once there are more ticks than that. Of the ticks that follow a value as many count down as the value says, unless the
next value is set before.
-/
namespace Chip8.Timer

inductive Op where
  | set (value : UInt8)
  | get
  | tick
deriving DecidableEq, Repr

/-- The value that an operation sets. -/
def Op.value? : Op → Option UInt8
  | set value => some value
  | _ => none

def after (value : UInt8) : Op → UInt8
  | .set next => next
  | .get => value
  | .tick => (tick value).1

def afterAll (value : UInt8) (ops : List Op) : UInt8 := ops.foldl after value

/-- What the gets read, the first one first. -/
def readings (value : UInt8) : List Op → List UInt8
  | [] => []
  | .set next :: rest => readings next rest
  | .get :: rest => value :: readings value rest
  | .tick :: rest => readings (tick value).1 rest

/-- How many of the ticks count down. -/
def counted (value : UInt8) : List Op → Nat
  | [] => 0
  | .set next :: rest => counted next rest
  | .get :: rest => counted value rest
  | .tick :: rest => (tick value).2.toNat + counted (tick value).1 rest

/-! ## What a history says -/

/-- The ticks before the first value is set. -/
def ticksBeforeSet : List Op → Nat
  | [] => 0
  | .set _ :: _ => 0
  | .get :: rest => ticksBeforeSet rest
  | .tick :: rest => ticksBeforeSet rest + 1

/-- The ticks since the last value was set. -/
def ticksSinceSet (ops : List Op) : Nat := ticksBeforeSet ops.reverse

/-- The value that was set last, zero if none was. -/
def lastSet (ops : List Op) : UInt8 := (ops.reverse.findSome? Op.value?).getD 0

/-- Each value that is set, with the ticks between it and the next one or the end. -/
def writes : List Op → List (UInt8 × Nat)
  | [] => []
  | .set value :: rest => (value, ticksBeforeSet rest) :: writes rest
  | _ :: rest => writes rest

/-- What is counted down if each value counts down for as many ticks as it says, or until the next one. -/
def countdown (ops : List Op) : Nat := ((writes ops).map fun w => min w.1.toNat w.2).sum

/-! ## Where a timer stands -/

theorem tick_of_pos {value : UInt8} (h : 0 < value.toNat) : tick value = (value - 1, true) := by
  have hne : value ≠ 0 := by
    intro h0
    rw [h0] at h
    exact Nat.lt_irrefl 0 h
  rw [tick, if_neg hne]

theorem toNat_tick (value : UInt8) : (tick value).1.toNat = value.toNat - 1 := by
  by_cases h : 0 < value.toNat
  · rw [tick_of_pos h]
    exact UInt8.toNat_sub_of_le value 1 (UInt8.le_iff_toNat_le.mpr h)
  · have h0 : value = 0 := UInt8.toNat_inj.mp (Nat.eq_zero_of_not_pos h)
    rw [h0]
    rfl

theorem toNat_counts (value : UInt8) : (tick value).2.toNat = min value.toNat 1 := by
  by_cases h : 0 < value.toNat
  · rw [tick_of_pos h, Bool.toNat_true]
    omega
  · have h0 : value = 0 := UInt8.toNat_inj.mp (Nat.eq_zero_of_not_pos h)
    rw [h0]
    rfl

theorem afterAll_append (value : UInt8) (first second : List Op) :
    afterAll value (first ++ second) = afterAll (afterAll value first) second :=
  List.foldl_append

theorem readings_append (value : UInt8) (first second : List Op) :
    readings value (first ++ second) =
      readings value first ++ readings (afterAll value first) second := by
  induction first generalizing value with
  | nil => rfl
  | cons op rest ih =>
    cases op with
    | set next => exact ih next
    | get => exact congrArg (value :: ·) (ih value)
    | tick => exact ih (tick value).1

/-- A timer that began at zero stands at the value set last less the ticks since then. -/
theorem toNat_afterAll (ops : List Op) :
    (afterAll 0 ops).toNat = (lastSet ops).toNat - ticksSinceSet ops := by
  -- What was set last and the ticks since then are read from the end.
  induction ops using List.reverseRecOn with
  | nil => rfl
  | append_singleton ops op ih =>
    rw [afterAll_append, lastSet, ticksSinceSet, List.reverse_concat]
    cases op with
    | set next => rfl
    | get => exact ih
    | tick =>
      have htick : (afterAll (afterAll 0 ops) [.tick]).toNat = (afterAll 0 ops).toNat - 1 :=
        toNat_tick _
      rw [htick, ih]
      exact Nat.sub_sub _ _ _

/-- Gets leave a timer alone and read what is there. -/
theorem afterAll_gets (value : UInt8) {ops : List Op} (h : ∀ op ∈ ops, op = .get) :
    afterAll value ops = value ∧ ∀ r ∈ readings value ops, r = value := by
  induction ops with
  | nil => exact ⟨rfl, fun r hr => absurd hr List.not_mem_nil⟩
  | cons op rest ih =>
    obtain rfl := h op List.mem_cons_self
    obtain ⟨hvalue, hreadings⟩ := ih fun op hop => h op (List.mem_cons_of_mem _ hop)
    refine ⟨hvalue, fun r hr => ?_⟩
    rcases List.mem_cons.mp hr with rfl | hr
    · rfl
    · exact hreadings r hr

theorem toNat_afterAll_ticks (value : UInt8) (n : Nat) :
    (afterAll value (List.replicate n .tick)).toNat = value.toNat - n := by
  induction n generalizing value with
  | zero => rfl
  | succ n ih =>
    have hrest := ih (tick value).1
    rw [toNat_tick, Nat.sub_sub, Nat.add_comm] at hrest
    exact hrest

/-! ## How many ticks count down -/

theorem counted_append (value : UInt8) (first second : List Op) :
    counted value (first ++ second) =
      counted value first + counted (afterAll value first) second := by
  induction first generalizing value with
  | nil => exact (Nat.zero_add _).symm
  | cons op rest ih =>
    cases op with
    | set next => exact ih next
    | get => exact ih value
    | tick =>
      have hrest := ih (tick value).1
      rw [List.cons_append, counted, hrest, counted, Nat.add_assoc]
      rfl

/-- A timer that stands at a value counts down like one that was set to it just now. -/
theorem counted_eq (value : UInt8) (ops : List Op) :
    counted value ops = countdown (.set value :: ops) := by
  induction ops generalizing value with
  | nil => simp [counted, countdown, writes, ticksBeforeSet]
  | cons op rest ih =>
    cases op with
    | set next =>
      rw [counted, ih]
      simp [countdown, writes, ticksBeforeSet]
    | get => exact ih value
    | tick =>
      -- This tick counts if the value is not zero, and the value less one goes on from there.
      rw [counted, ih, toNat_counts]
      simp only [countdown, writes, ticksBeforeSet, List.map_cons, List.sum_cons, toNat_tick]
      omega

/-- What comes before the first value is set does not count for a timer that began at zero. -/
theorem counted_zero (ops : List Op) : counted 0 ops = countdown ops := by
  rw [counted_eq]
  simp [countdown, writes]

theorem counted_ticks (value : UInt8) (n : Nat) :
    counted value (List.replicate n .tick) = min value.toNat n := by
  induction n generalizing value with
  | zero => exact (Nat.min_zero _).symm
  | succ n ih =>
    rw [List.replicate_succ, counted, ih, toNat_counts, toNat_tick]
    omega

end Chip8.Timer
