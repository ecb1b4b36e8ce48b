import Chip8.Machine.Execute

/-!
# Results and flags

Sums, differences and shifts compute a result for Vx and a flag for VF. Both are computed from the operands as they were
before, also if VF is an operand. Which of the two is written last shows only if Vx is VF itself: it is the result of a
sum or a difference, and the flag of a shift.
-/
namespace Chip8

/-- The instructions that compute a result and a flag. -/
inductive Computation where
  | sum
  | difference
  | reversedDifference
  | half
  | double
deriving DecidableEq, Repr

namespace Computation

/-- The instruction that puts the result into Vx. The shifts have no second operand. -/
def instruction : Computation → UInt8 → UInt8 → Instruction
  | sum, x, y => .addRegister x y
  | difference, x, y => .sub x y
  | reversedDifference, x, y => .subReversed x y
  | half, x, _ => .shiftRight x
  | double, x, _ => .shiftLeft x

/-- The result, if Vx is `a` and Vy is `b`. -/
def result (a b : Nat) : Computation → Nat
  | sum => (a + b) % 256
  | difference => (256 + a - b) % 256
  | reversedDifference => (256 + b - a) % 256
  | half => a / 2
  | double => 2 * a % 256

/-- The flag, if Vx is `a` and Vy is `b`. -/
def flag (a b : Nat) : Computation → Nat
  | sum => if a + b > 255 then 1 else 0
  | difference => if a > b then 1 else 0
  | reversedDifference => if b > a then 1 else 0
  | half => a % 2
  | double => a / 128

/-- Whether the flag is what is left if both go to VF. -/
def flagLast : Computation → Bool
  | half | double => true
  | _ => false

end Computation

namespace Registers

/-- The registers `r'` come from `r` by a result that goes to Vx and a flag that goes to VF. If Vx is VF, one of the
two is left. -/
structure Receives (r : Registers) (x : UInt8) (result flag : Nat) (flagLast : Bool)
    (r' : Registers) : Prop where
  apart : x.toNat % 16 ≠ 15 → (r'.get x).toNat = result ∧ (r'.get 15).toNat = flag
  together : x.toNat % 16 = 15 → (r'.get 15).toNat = if flagLast then flag else result
  others : ∀ name : UInt8, name.toNat % 16 ≠ x.toNat % 16 → name.toNat % 16 ≠ 15 →
    r'.get name = r.get name
  index : r'.index = r.index

theorem receives_flag_first (r : Registers) (x result flag : UInt8) :
    r.Receives x result.toNat flag.toNat false ((r.setFlag flag).set x result) := by
  have hflag : r.Takes 15 flag (r.setFlag flag) := r.takes_set 15 flag
  have hresult := (r.setFlag flag).takes_set x result
  constructor
  · intro hx
    have hstays := hresult.others 15 (Ne.symm hx)
    exact ⟨congrArg UInt8.toNat hresult.taken, congrArg UInt8.toNat (hstays.trans hflag.taken)⟩
  · intro hx
    have hsame : ((r.setFlag flag).set x result).get 15 = ((r.setFlag flag).set x result).get x :=
      get_congr hx.symm
    exact congrArg UInt8.toNat (hsame.trans hresult.taken)
  · exact fun name hname hnot => (hresult.others name hname).trans (hflag.others name hnot)
  · exact hresult.index.trans hflag.index

theorem receives_flag_last (r : Registers) (x result flag : UInt8) :
    r.Receives x result.toNat flag.toNat true ((r.set x result).setFlag flag) := by
  have hresult := r.takes_set x result
  have hflag : (r.set x result).Takes 15 flag ((r.set x result).setFlag flag) :=
    (r.set x result).takes_set 15 flag
  constructor
  · intro hx
    have hstays := hflag.others x hx
    exact ⟨congrArg UInt8.toNat (hstays.trans hresult.taken), congrArg UInt8.toNat hflag.taken⟩
  · exact fun _ => congrArg UInt8.toNat hflag.taken
  · exact fun name hname hnot => (hflag.others name hnot).trans (hresult.others name hname)
  · exact hflag.index.trans hresult.index

theorem toNat_decide (p : Prop) [Decidable p] :
    (decide p).toUInt8.toNat = if p then 1 else 0 := by
  by_cases h : p
  · rw [decide_eq_true h, if_pos h]
    rfl
  · rw [decide_eq_false h, if_neg h]
    rfl

theorem toNat_difference (a b : UInt8) : (a - b).toNat = (256 + a.toNat - b.toNat) % 256 := by
  have hb := b.toNat_lt
  rw [UInt8.toNat_sub]
  omega

/-! ## The five instructions -/

variable (r : Registers) (x y : UInt8)

theorem receives_add :
    r.Receives x (((r.get x).toNat + (r.get y).toNat) % 256)
      (if (r.get x).toNat + (r.get y).toNat > 255 then 1 else 0) false (r.add x y) := by
  have h := r.receives_flag_first x (r.get x + r.get y)
    (decide (255 < (r.get x).toNat + (r.get y).toNat)).toUInt8
  rw [toNat_decide, UInt8.toNat_add] at h
  exact h

theorem receives_sub :
    r.Receives x ((256 + (r.get x).toNat - (r.get y).toNat) % 256)
      (if (r.get x).toNat > (r.get y).toNat then 1 else 0) false (r.sub x y) := by
  have h := r.receives_flag_first x (r.get x - r.get y) (decide (r.get y < r.get x)).toUInt8
  rw [toNat_decide, toNat_difference] at h
  exact h

theorem receives_subReversed :
    r.Receives x ((256 + (r.get y).toNat - (r.get x).toNat) % 256)
      (if (r.get y).toNat > (r.get x).toNat then 1 else 0) false (r.subReversed x y) := by
  have h := r.receives_flag_first x (r.get y - r.get x) (decide (r.get x < r.get y)).toUInt8
  rw [toNat_decide, toNat_difference] at h
  exact h

theorem receives_shiftRight :
    r.Receives x ((r.get x).toNat / 2) ((r.get x).toNat % 2) true (r.shiftRight x) := by
  have h := r.receives_flag_last x (r.get x / 2) (r.get x % 2)
  rw [UInt8.toNat_div, UInt8.toNat_mod] at h
  exact h

theorem receives_shiftLeft :
    r.Receives x (2 * (r.get x).toNat % 256) ((r.get x).toNat / 128) true (r.shiftLeft x) := by
  have h := r.receives_flag_last x (r.get x + r.get x) (r.get x / 128)
  rw [UInt8.toNat_add, UInt8.toNat_div, ← Nat.two_mul] at h
  exact h

end Registers

namespace Session

/-- Sums, differences and shifts take both operands as they were before anything was written, whatever the registers
x, y and VF have in common. The result and the flag are what the table says, and a sum or a shift can be told from the
two together. They go to Vx and to VF, and if Vx is VF the result of a sum or a difference is left there, and the flag
of a shift. No other register changes and nothing else in the session. 7xnn adds without a flag, so that VF changes only
if it is Vx. -/
theorem arithmetic_before_flag :
    (∀ (s : Session) (c : Computation) (x y : UInt8) (here : Address),
      let r := s.machine.registers
      let a := (r.get x).toNat
      let b := (r.get y).toNat
      ∃ t, s.execute (c.instruction x y) here = .done t ∧
        t = { s with machine := { s.machine with registers := t.machine.registers } } ∧
        r.Receives x (c.result a b) (c.flag a b) c.flagLast t.machine.registers) ∧
    (∀ a b : UInt8,
      Computation.sum.result a.toNat b.toNat + 256 * Computation.sum.flag a.toNat b.toNat =
        a.toNat + b.toNat ∧
      2 * Computation.half.result a.toNat b.toNat + Computation.half.flag a.toNat b.toNat =
        a.toNat ∧
      Computation.double.result a.toNat b.toNat + 256 * Computation.double.flag a.toNat b.toNat =
        2 * a.toNat) ∧
    ∀ (s : Session) (x nn : UInt8) (here : Address),
      let r := s.machine.registers
      ∃ t sum, s.execute (.add x nn) here = .done t ∧
        t = { s with machine := { s.machine with registers := t.machine.registers } } ∧
        sum.toNat = ((r.get x).toNat + nn.toNat) % 256 ∧ r.Takes x sum t.machine.registers := by
  refine ⟨fun s c x y here => ?_, fun a b => ?_, fun s x nn here => ?_⟩
  · cases c with
    | sum => exact ⟨_, rfl, rfl, Registers.receives_add _ x y⟩
    | difference => exact ⟨_, rfl, rfl, Registers.receives_sub _ x y⟩
    | reversedDifference => exact ⟨_, rfl, rfl, Registers.receives_subReversed _ x y⟩
    | half => exact ⟨_, rfl, rfl, Registers.receives_shiftRight _ x⟩
    | double => exact ⟨_, rfl, rfl, Registers.receives_shiftLeft _ x⟩
  · have ha := a.toNat_lt
    have hb := b.toNat_lt
    simp only [Computation.result, Computation.flag]
    refine ⟨?_, by omega, by omega⟩
    split <;> omega
  · exact ⟨_, _, rfl, rfl, UInt8.toNat_add _ _, Registers.takes_set _ _ _⟩

/-- A session with one value in all registers. -/
def uniform (value : UInt8) : Session where
  machine := { Machine.ofSeed 7 with registers := ⟨Vector.replicate 16 value, 0x300⟩ }
  keypad := Keypad.untouched

/-- If VF is added to itself the sum is left in it and not the carry. If VF is doubled the bit that falls off is left.
-/
theorem arithmetic_before_flag_on_flag :
    (∃ t, (uniform 200).execute (.addRegister 15 15) 0x200 = .done t ∧
      (t.machine.registers.get 15).toNat = 144 ∧ t.machine.registers.get 3 = 200) ∧
    ∃ t, (uniform 200).execute (.shiftLeft 15) 0x200 = .done t ∧
      (t.machine.registers.get 15).toNat = 1 ∧ t.machine.registers.get 3 = 200 := by
  obtain ⟨harithmetic, _⟩ := arithmetic_before_flag
  obtain ⟨t, hsum, _, ht⟩ := harithmetic (uniform 200) .sum 15 15 0x200
  obtain ⟨u, hdouble, _, hu⟩ := harithmetic (uniform 200) .double 15 15 0x200
  refine ⟨⟨t, hsum, ?_, ?_⟩, u, hdouble, ?_, ?_⟩
  · exact ht.together rfl
  · exact ht.others 3 (by decide) (by decide)
  · exact hu.together rfl
  · exact hu.others 3 (by decide) (by decide)

end Session

end Chip8
