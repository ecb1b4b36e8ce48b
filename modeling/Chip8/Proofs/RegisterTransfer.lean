import Chip8.Proofs.Footprint

/-!
# Registers to memory and back

Fx55 copies the registers V0 to Vx to memory at the index, and Fx65 copies as many bytes from there to V0 to Vx. Either
undoes the other: registers that were stored come back whatever has become of V meanwhile, and bytes that were loaded
are stored where they came from. Both reach equally far, so where one is refused the other one is.
-/
namespace Chip8

namespace Registers

variable {r : Registers} {n j : Nat} {values : List UInt8} {name : UInt8}

/-- A register that values are put into holds the last of them. -/
theorem get_setAll_of_last (hj : j < values.length)
    (hname : slot name = slot (UInt8.ofNat (n + j)))
    (hlast : ∀ k < values.length, slot name = slot (UInt8.ofNat (n + k)) → k ≤ j) :
    (r.setAll n values).get name = values[j] := by
  induction values generalizing r n j with
  | nil => exact absurd hj (Nat.not_lt_zero j)
  | cons v rest ih =>
    have hshift : ∀ k, n + 1 + k = n + (k + 1) := fun k => by omega
    rw [setAll]
    cases j with
    | zero =>
      -- No later value goes to this register, or it would be the last one.
      have hrest : ((r.set (UInt8.ofNat n) v).setAll (n + 1) rest).get name =
          (r.set (UInt8.ofNat n) v).get name := by
        by_contra hchanged
        obtain ⟨k, hk, hslot⟩ := slot_of_setAll_changed hchanged
        rw [hshift] at hslot
        exact absurd (hlast (k + 1) (Nat.succ_lt_succ hk) hslot) (Nat.not_succ_le_zero k)
      rw [hrest, get_set, if_pos (by rw [hname, Nat.add_zero]), List.getElem_cons_zero]
    | succ j =>
      rw [List.getElem_cons_succ]
      refine ih (Nat.lt_of_succ_lt_succ hj) (by rw [hshift]; exact hname) ?_
      intro k hk hslot
      rw [hshift] at hslot
      exact Nat.le_of_succ_le_succ (hlast (k + 1) (Nat.succ_lt_succ hk) hslot)

/-- Up to sixteen values go to registers of their own. -/
theorem get_setAll_of_lt (hlength : values.length ≤ 16) (h : (slot name).val < values.length) :
    (r.setAll 0 values).get name = values[(slot name).val] := by
  have hslot : ∀ k < 16, (slot (UInt8.ofNat (0 + k))).val = k := by
    intro k hk
    simp only [slot, UInt8.toNat_ofNat']
    omega
  refine get_setAll_of_last h ?_ ?_
  · exact Fin.ext (hslot _ (slot name).isLt).symm
  · intro k hk hk'
    have hk16 := hslot k (by omega)
    exact Nat.le_of_eq (by rw [hk', hk16])

theorem get_setAll_of_le (hlength : values.length ≤ 16) (h : values.length ≤ (slot name).val) :
    (r.setAll 0 values).get name = r.get name := by
  by_contra hchanged
  obtain ⟨k, hk, hslot⟩ := slot_of_setAll_changed hchanged
  rw [hslot] at h
  simp only [slot, UInt8.toNat_ofNat'] at h
  omega

theorem getD_toList (r : Registers) (hj : j < 16) :
    r.toList.getD j 0 = r.get (UInt8.ofNat j) := by
  have hslot : (slot (UInt8.ofNat j)).val = j := by
    simp only [slot, UInt8.toNat_ofNat']
    omega
  have hlength : r.toList.length = 16 := Vector.length_toList
  rw [List.getD_eq_getElem?_getD, List.getElem?_eq_getElem (by omega), Option.getD_some]
  simp only [toList, Vector.getElem_toList, get, Fin.getElem_fin, hslot]

end Registers

namespace Machine

variable {m : Machine} {x name : UInt8} {n j a : Nat}

theorem getElem_bytesAtIndex (hj : j < (m.bytesAtIndex n).length) :
    (m.bytesAtIndex n)[j] = m.memory.byte (m.registers.index.toNat + j) := by
  simp only [bytesAtIndex, List.getElem_map, List.getElem_range]

/-- After Fx55 the registers V0 to Vx lie at the index. -/
theorem byte_memoryAfter_storeRegisters (hx : x.toNat < 16)
    (hfits : m.registers.index.toNat + x.toNat < Memory.size) (a : Nat) :
    (m.memoryAfter (.storeRegisters x)).byte a =
      if m.registers.index.toNat ≤ a ∧ a ≤ m.registers.index.toNat + x.toNat
        then m.registers.get (UInt8.ofNat (a - m.registers.index.toNat)) else m.memory.byte a := by
  have hlength : (m.stored (.storeRegisters x)).length = x.toNat + 1 := by
    have hall : m.registers.toList.length = 16 := Vector.length_toList
    exact List.length_take_of_le (by omega)
  rw [memoryAfter, Memory.byte_putAll, hlength]
  by_cases ha : m.registers.index.toNat ≤ a ∧ a ≤ m.registers.index.toNat + x.toNat
  · rw [if_pos ha, if_pos (by omega), stored, List.getD_eq_getElem?_getD,
      List.getElem?_take_of_lt (by omega), ← List.getD_eq_getElem?_getD,
      Registers.getD_toList _ (by omega)]
  · rw [if_neg ha, if_neg (by omega)]

/-- Registers that hold what lies at the index are stored without a change to memory. -/
theorem memoryAfter_storeRegisters_of_held (hx : x.toNat < 16)
    (hfits : m.registers.index.toNat + x.toNat < Memory.size)
    (hheld : ∀ name : UInt8, name.toNat ≤ x.toNat →
      m.registers.get name = m.memory.byte (m.registers.index.toNat + name.toNat)) :
    m.memoryAfter (.storeRegisters x) = m.memory := by
  apply Memory.ext_byte
  intro a _
  rw [byte_memoryAfter_storeRegisters hx hfits]
  by_cases ha : m.registers.index.toNat ≤ a ∧ a ≤ m.registers.index.toNat + x.toNat
  · have hname : (UInt8.ofNat (a - m.registers.index.toNat)).toNat = a - m.registers.index.toNat := by
      rw [UInt8.toNat_ofNat']
      omega
    rw [if_pos ha, hheld _ (by omega), hname, Nat.add_sub_cancel' ha.1]
  · rw [if_neg ha]

end Machine

namespace Session

/-- The session with other values in V. -/
def withV (s : Session) (v : Vector UInt8 16) : Session :=
  { s with machine := { s.machine with registers := { s.machine.registers with v := v } } }

variable {s t : Session} {i : Instruction} {x : UInt8} {here : Address} {f : Fault} {n : Nat}

/-- An instruction that uses memory at the index and cannot trap is refused for the end of memory alone. -/
theorem execute_faulted_iff_of_reach (hreach : i.reach? = some n) (hsteady : ¬ s.Traps i) :
    s.execute i here = .faulted f t ↔
      Memory.size < s.machine.registers.index.toNat + n ∧
        f = .addressOutOfBounds (max s.machine.registers.index.toNat Memory.size) here ∧ t = s := by
  rw [execute_faulted_iff, Machine.refusal_of_reach hreach, Machine.overreach?]
  by_cases h : Memory.size < s.machine.registers.index.toNat + n
  · simp [hsteady, h, eq_comm]
  · simp [h]

theorem not_traps_storeRegisters (hx : x.toNat < 16) : ¬ s.Traps (.storeRegisters x) :=
  Nat.not_lt.mpr (Nat.le_of_lt_succ hx)

theorem not_traps_loadRegisters (s : Session) (x : UInt8) : ¬ s.Traps (.loadRegisters x) :=
  fun h => Bool.false_ne_true h.1

theorem execute_storeRegisters (hx : x.toNat < 16)
    (hfits : s.machine.registers.index.toNat + x.toNat < Memory.size) :
    s.execute (.storeRegisters x) here =
      .done { s with machine := { s.machine with
        memory := s.machine.memoryAfter (.storeRegisters x) } } := by
  obtain ⟨t, ht⟩ : ∃ t, s.execute (.storeRegisters x) here = .done t :=
    execute_done_iff.mpr ⟨not_traps_storeRegisters hx, Machine.overreach_of_le hfits⟩
  rw [ht, execute_done_eq ht]
  rfl

theorem execute_loadRegisters
    (hfits : s.machine.registers.index.toNat + x.toNat < Memory.size) :
    s.execute (.loadRegisters x) here =
      .done (s.setRegisters (s.registersAfter (.loadRegisters x))) := by
  obtain ⟨t, ht⟩ : ∃ t, s.execute (.loadRegisters x) here = .done t :=
    execute_done_iff.mpr ⟨s.not_traps_loadRegisters x, Machine.overreach_of_le hfits⟩
  rw [ht, execute_done_eq ht]
  rfl

/-- Fx65 with x at most 15 brings the bytes at the index to V0 to Vx, and leaves the other registers alone. -/
theorem get_registersAfter_loadRegisters (s : Session) (hx : x.toNat < 16) {name : UInt8}
    (hname : name.toNat < 16) :
    (s.registersAfter (.loadRegisters x)).get name =
      if name.toNat ≤ x.toNat
        then s.machine.memory.byte (s.machine.registers.index.toNat + name.toNat)
        else s.machine.registers.get name := by
  have hlength := s.machine.length_bytesAtIndex (x.toNat + 1)
  have hslot : (Registers.slot name).val = name.toNat := Nat.mod_eq_of_lt hname
  change (s.machine.registers.setAll 0 (s.machine.bytesAtIndex (x.toNat + 1))).get name = _
  by_cases h : name.toNat ≤ x.toNat
  · rw [if_pos h, Registers.get_setAll_of_lt (by omega) (by omega), Machine.getElem_bytesAtIndex,
      hslot]
  · rw [if_neg h, Registers.get_setAll_of_le (by omega) (by omega)]

/-- What was stored comes back, whatever has become of V meanwhile. -/
theorem get_loaded_of_stored (hx : x.toNat < 16)
    (hfits : s.machine.registers.index.toNat + x.toNat < Memory.size)
    (hindex : t.machine.registers.index = s.machine.registers.index)
    (hmemory : t.machine.memory = s.machine.memoryAfter (.storeRegisters x)) {name : UInt8}
    (hname : name.toNat < 16) :
    (t.registersAfter (.loadRegisters x)).get name =
      if name.toNat ≤ x.toNat then s.machine.registers.get name
      else t.machine.registers.get name := by
  rw [t.get_registersAfter_loadRegisters hx hname, hindex, hmemory,
    Machine.byte_memoryAfter_storeRegisters hx hfits, Nat.add_sub_cancel_left, UInt8.ofNat_toNat]
  by_cases h : name.toNat ≤ x.toNat
  · rw [if_pos h, if_pos h, if_pos ⟨Nat.le_add_right _ _, Nat.add_le_add_left h _⟩]
  · rw [if_neg h, if_neg h]

/-- What was loaded is stored where it came from. -/
theorem execute_storeRegisters_of_loaded (hx : x.toNat < 16)
    (hfits : s.machine.registers.index.toNat + x.toNat < Memory.size) :
    ∃ u, (s.setRegisters (s.registersAfter (.loadRegisters x))).execute (.storeRegisters x) here =
        .done u ∧ u.machine.memory = s.machine.memory := by
  have hindex : (s.setRegisters (s.registersAfter (.loadRegisters x))).machine.registers.index =
      s.machine.registers.index := Registers.index_setAll _ _ _
  refine ⟨_, execute_storeRegisters hx (by rwa [hindex]), ?_⟩
  refine Machine.memoryAfter_storeRegisters_of_held hx (by rwa [hindex]) ?_
  intro name hname
  have hget := s.get_registersAfter_loadRegisters hx (Nat.lt_of_le_of_lt hname hx)
  rw [if_pos hname] at hget
  rw [hindex]
  exact hget

/-- Let x be at most 15. If V0 to Vx fit into memory at the index, Fx55 puts them there and changes nothing else, and
then Fx65, whatever V has become, brings them back and changes no other register, neither the index nor memory. The
other way round Fx65 and then Fx55 leave memory as it was. Each of the two is refused if and only if the registers do
not fit. -/
theorem store_load_inverse (s : Session) (x : UInt8) (hx : x.toNat < 16) :
    let r := s.machine.registers
    let start := r.index.toNat
    (start + x.toNat < 4096 → ∀ here there,
      (∃ t, s.execute (.storeRegisters x) here = .done t ∧
        t = { s with machine := { s.machine with memory := t.machine.memory } } ∧
        (∀ a, t.machine.memory.byte a =
          if start ≤ a ∧ a ≤ start + x.toNat then r.get (UInt8.ofNat (a - start))
          else s.machine.memory.byte a) ∧
        ∀ v, ∃ u, (t.withV v).execute (.loadRegisters x) there = .done u ∧
          u = { t with machine := { t.machine with registers := u.machine.registers } } ∧
          u.machine.registers.index = r.index ∧
          ∀ name : UInt8, name.toNat < 16 → u.machine.registers.get name =
            if name.toNat ≤ x.toNat then r.get name else (t.withV v).machine.registers.get name) ∧
      ∃ t u, s.execute (.loadRegisters x) here = .done t ∧
        t.execute (.storeRegisters x) there = .done u ∧ u.machine.memory = s.machine.memory) ∧
    ∀ i ∈ [Instruction.storeRegisters x, .loadRegisters x], ∀ here f t,
      s.execute i here = .faulted f t ↔
        4096 ≤ start + x.toNat ∧ f = .addressOutOfBounds (max start 4096) here ∧ t = s := by
  intro r start
  refine ⟨fun hfits here there => ⟨⟨_, execute_storeRegisters hx hfits, rfl, ?_, ?_⟩, ?_⟩, ?_⟩
  · exact Machine.byte_memoryAfter_storeRegisters hx hfits
  · intro v
    refine ⟨_, execute_loadRegisters hfits, rfl, Registers.index_setAll _ _ _, ?_⟩
    intro name hname
    refine get_loaded_of_stored hx hfits ?_ ?_ hname
    · rfl
    · rfl
  · obtain ⟨u, hu, hmemory⟩ := execute_storeRegisters_of_loaded hx hfits
    exact ⟨_, u, execute_loadRegisters hfits, hu, hmemory⟩
  · intro i hi here f t
    have hreach : i.reach? = some (x.toNat + 1) ∧ ¬ s.Traps i := by
      simp only [List.mem_cons, List.not_mem_nil, or_false] at hi
      obtain rfl | rfl := hi
      · exact ⟨rfl, not_traps_storeRegisters hx⟩
      · exact ⟨rfl, s.not_traps_loadRegisters x⟩
    rw [execute_faulted_iff_of_reach hreach.1 hreach.2]
    exact and_congr_left' Nat.lt_succ_iff

/-- A session with sixteen different registers. -/
def lastCells (index : Address) : Session where
  machine := { Machine.ofSeed 7 with
    registers := ⟨Vector.ofFn fun j => UInt8.ofNat (17 * j.val + 3), index⟩ }
  keypad := Keypad.untouched

/-- All sixteen registers go to the last bytes of memory and come back after V was cleared. One byte further up they are
refused. -/
theorem store_load_inverse_last_cells :
    (15 : UInt8).toNat < 16 ∧ 0xFF0 + (15 : UInt8).toNat < 4096 ∧
      (∃ t u, (lastCells 0xFF0).execute (.storeRegisters 15) 0x200 = .done t ∧
        t.machine.memory.byte 0xFFF = 2 ∧
        (t.withV (Vector.replicate 16 0)).execute (.loadRegisters 15) 0x202 = .done u ∧
        u.machine.registers.get 15 = 2) ∧
      (lastCells 0xFF1).execute (.storeRegisters 15) 0x200 =
        .faulted (.addressOutOfBounds 4096 0x200) (lastCells 0xFF1) := by
  have hx : (15 : UInt8).toNat < 16 := by decide
  have hfits : 0xFF0 + (15 : UInt8).toNat < 4096 := by decide
  obtain ⟨hround, _⟩ := store_load_inverse (lastCells 0xFF0) 15 hx
  obtain ⟨_, hrefused⟩ := store_load_inverse (lastCells 0xFF1) 15 hx
  obtain ⟨⟨t, hstore, _, hmemory, hback⟩, _⟩ := hround hfits 0x200 0x202
  obtain ⟨u, hload, _, _, hget⟩ := hback (Vector.replicate 16 0)
  refine ⟨hx, hfits, ⟨t, u, hstore, ?_, hload, ?_⟩, ?_⟩
  · rw [hmemory]
    decide
  · rw [hget 15 hx, if_pos (Nat.le_refl _)]
    decide
  · exact (hrefused _ List.mem_cons_self 0x200 _ _).mpr ⟨by decide, rfl, rfl⟩

end Session

end Chip8
