import Chip8.Proofs.RegisterTransfer
import Mathlib.Order.Bounds.Basic

/-!
# Loads past VF

Fx65 counts its registers on from V0 and names them by the low digit of the count, so a load of more than sixteen bytes
starts over with V0 behind VF. Bytes that lie sixteen apart go to the same register, and the last of them stays there.
A decoded instruction loads up to VF at most, one that was built by hand up to 256 bytes.
-/
namespace Chip8

namespace Registers

variable {r : Registers} {values : List UInt8} {name : UInt8} {x j : Nat}

/-- The counts up to `x` that name a register. -/
def turns (name : UInt8) (x : Nat) : Set Nat := {j | j ≤ x ∧ j % 16 = name.toNat % 16}

theorem slot_eq_slot_ofNat_iff : slot name = slot (UInt8.ofNat j) ↔ j % 16 = name.toNat % 16 := by
  rw [slot_eq_iff, UInt8.toNat_ofNat']
  omega

theorem exists_last_turn (h : (turns name x).Nonempty) : ∃ j, IsGreatest (turns name x) j := by
  obtain ⟨j, hj, hname⟩ := h
  refine ⟨name.toNat % 16 + 16 * ((x - name.toNat % 16) / 16), ⟨?_, ?_⟩, ?_⟩
  · omega
  · omega
  · rintro k ⟨hk, hname'⟩
    omega

/-- Of the values that go to a register the last one stays. -/
theorem get_setAll_of_last_turn (hlength : values.length = x + 1)
    (hj : IsGreatest (turns name x) j) (hlt : j < values.length) :
    (r.setAll 0 values).get name = values[j] := by
  obtain ⟨⟨_, hname⟩, hgreatest⟩ := hj
  refine get_setAll_of_last hlt ?_ ?_
  · rw [Nat.zero_add]
    exact slot_eq_slot_ofNat_iff.mpr hname
  · intro k hk hslot
    rw [Nat.zero_add] at hslot
    exact hgreatest ⟨by omega, slot_eq_slot_ofNat_iff.mp hslot⟩

theorem get_setAll_of_no_turn (hlength : values.length = x + 1)
    (h : ¬ (turns name x).Nonempty) : (r.setAll 0 values).get name = r.get name := by
  by_contra hchanged
  obtain ⟨k, hk, hslot⟩ := slot_of_setAll_changed hchanged
  rw [Nat.zero_add] at hslot
  exact h ⟨k, by omega, slot_eq_slot_ofNat_iff.mp hslot⟩

end Registers

namespace Session

variable {s : Session} {x name : UInt8} {j : Nat}

theorem get_loaded_of_last_turn (hj : IsGreatest (Registers.turns name x.toNat) j) :
    (s.registersAfter (.loadRegisters x)).get name =
      s.machine.memory.byte (s.machine.registers.index.toNat + j) := by
  have hlength := s.machine.length_bytesAtIndex (x.toNat + 1)
  have hle : j ≤ x.toNat := hj.1.1
  change (s.machine.registers.setAll 0 (s.machine.bytesAtIndex (x.toNat + 1))).get name = _
  rw [Registers.get_setAll_of_last_turn hlength hj (by omega), Machine.getElem_bytesAtIndex]

theorem get_loaded_of_no_turn (h : ¬ (Registers.turns name x.toNat).Nonempty) :
    (s.registersAfter (.loadRegisters x)).get name = s.machine.registers.get name :=
  Registers.get_setAll_of_no_turn (s.machine.length_bytesAtIndex (x.toNat + 1)) h

/-- Fx65 with any x, also past 15. If the x + 1 bytes at the index lie inside memory, each register that a count up to x
names holds the byte of the last such count, and all else is as it was: the other registers, the index, memory and what
there is besides. If they do not, the instruction is refused with the first address that does not exist, and nothing
changes. -/
theorem load_wraps_past_flag (s : Session) (x : UInt8) (here : Address) :
    let r := s.machine.registers
    let start := r.index.toNat
    (start + x.toNat + 1 ≤ 4096 →
      ∃ t, s.execute (.loadRegisters x) here = .done t ∧
        t = { s with machine := { s.machine with registers := t.machine.registers } } ∧
        t.machine.registers.index = r.index ∧
        ∀ name,
          ((Registers.turns name x.toNat).Nonempty →
            ∃ j, IsGreatest (Registers.turns name x.toNat) j ∧
              t.machine.registers.get name = s.machine.memory.byte (start + j)) ∧
          (¬ (Registers.turns name x.toNat).Nonempty →
            t.machine.registers.get name = r.get name)) ∧
    (4096 < start + x.toNat + 1 →
      s.execute (.loadRegisters x) here =
        .faulted (.addressOutOfBounds (max start 4096) here) s) := by
  intro r start
  constructor
  · intro hfits
    refine ⟨_, execute_loadRegisters hfits, rfl, Registers.index_setAll _ _ _,
      fun name => ⟨?_, ?_⟩⟩
    · intro hturn
      obtain ⟨last, hlast⟩ := Registers.exists_last_turn hturn
      exact ⟨last, hlast, get_loaded_of_last_turn hlast⟩
    · exact get_loaded_of_no_turn
  · intro hlt
    exact (execute_faulted_iff_of_reach rfl (s.not_traps_loadRegisters x)).mpr ⟨hlt, rfl, rfl⟩

/-- A session with 34 different bytes at the end of memory. -/
def endFilled (index : Address) : Session where
  machine := { Machine.ofSeed 7 with
    memory := Memory.fresh.putAll 0xFDE ((List.range 34).map fun j => UInt8.ofNat (j + 1))
    registers := Registers.fresh.setIndex index }
  keypad := Keypad.untouched

/-- A load of 34 bytes goes round twice: V1 holds the last byte of memory and V2 the one sixteen before the next. One
byte further up the load is refused. -/
theorem load_wraps_past_flag_twice :
    0xFDE + (0x21 : UInt8).toNat + 1 ≤ 4096 ∧
      (∃ t, (endFilled 0xFDE).execute (.loadRegisters 0x21) 0x200 = .done t ∧
        t.machine.registers.get 1 = 34 ∧ t.machine.registers.get 2 = 19 ∧
        t.machine.memory = (endFilled 0xFDE).machine.memory) ∧
      (endFilled 0xFDF).execute (.loadRegisters 0x21) 0x200 =
        .faulted (.addressOutOfBounds 4096 0x200) (endFilled 0xFDF) := by
  have hfits : 0xFDE + (0x21 : UInt8).toNat + 1 ≤ 4096 := by decide
  obtain ⟨hload, _⟩ := load_wraps_past_flag (endFilled 0xFDE) 0x21 0x200
  obtain ⟨_, hrefused⟩ := load_wraps_past_flag (endFilled 0xFDF) 0x21 0x200
  obtain ⟨t, ht, hrest, _, hget⟩ := hload hfits
  have hlast : ∀ {name : UInt8} {j : Nat}, IsGreatest (Registers.turns name 0x21) j →
      t.machine.registers.get name = (endFilled 0xFDE).machine.memory.byte (0xFDE + j) := by
    intro name j hj
    obtain ⟨k, hk, hvalue⟩ := (hget name).1 ⟨j, hj.1⟩
    rw [hvalue, hk.unique hj]
    rfl
  have h1 : IsGreatest (Registers.turns 1 0x21) 33 :=
    ⟨⟨by decide, by decide⟩, fun k hk => hk.1⟩
  have h2 : IsGreatest (Registers.turns 2 0x21) 18 := by
    refine ⟨⟨by decide, by decide⟩, ?_⟩
    rintro k ⟨hk, hname⟩
    change k % 16 = 2 at hname
    omega
  refine ⟨hfits, ⟨t, ht, ?_, ?_, ?_⟩, hrefused (by decide)⟩
  · rw [hlast h1, endFilled, Memory.byte_putAll]
    decide
  · rw [hlast h2, endFilled, Memory.byte_putAll]
    decide
  · rw [hrest]

end Session

end Chip8
