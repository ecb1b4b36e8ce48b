import Chip8.Proofs.FaultStages
import Chip8.Proofs.UnreadMemory

/-!
# Where a step leads

A step goes on with the next word unless its own word says otherwise: a jump, a call and a return go to an address, a
wait for a key stays where it is, and a skip leaves out a word if its condition holds. All of this is read off the
digits of the word, as they stand in memory, and there is no other way for a step to move the program counter.
-/
namespace Chip8

namespace Word

/-- Whether a word is 3xnn, 4xnn, 5xy0, 9xy0, Ex9E or ExA1. -/
def IsSkip (w : Word) : Prop :=
  w.toNat / 4096 = 0x3 ∨ w.toNat / 4096 = 0x4 ∨
    ((w.toNat / 4096 = 0x5 ∨ w.toNat / 4096 = 0x9) ∧ w.toNat % 16 = 0) ∨
      (w.toNat / 4096 = 0xE ∧ (w.toNat % 256 = 0x9E ∨ w.toNat % 256 = 0xA1))

/-- Whether a word is Fx0A. -/
def IsWait (w : Word) : Prop := w.toNat / 4096 = 0xF ∧ w.toNat % 256 = 0x0A

/-- Whether a word can lead elsewhere than to the next one or the one behind it. -/
def Diverts (w : Word) : Prop :=
  w.toNat / 4096 = 0x1 ∨ w.toNat / 4096 = 0x2 ∨ w.toNat / 4096 = 0xB ∨ w.toNat = 0x00EE ∨
    w.IsWait

/-- Two skips with the same operands and opposite conditions: 3xnn and 4xnn, 5xy0 and 9xy0, or Ex9E and ExA1. -/
def Opposes (w w' : Word) : Prop :=
  (w.toNat / 4096 = 0x3 ∧ w'.toNat = w.toNat + 0x1000) ∨
    (w.toNat / 4096 = 0x5 ∧ w.toNat % 16 = 0 ∧ w'.toNat = w.toNat + 0x4000) ∨
      (w.toNat / 4096 = 0xE ∧ w.toNat % 256 = 0x9E ∧ w'.toNat = w.toNat + 3)

instance (w : Word) : Decidable w.IsSkip := inferInstanceAs (Decidable (_ ∨ _ ∨ _ ∨ _))

instance (w : Word) : Decidable w.IsWait := inferInstanceAs (Decidable (_ ∧ _))

theorem fourth_eq_zero_iff (w : Word) : w.nibbles.fourth = 0 ↔ w.toNat % 16 = 0 := by
  obtain ⟨_, _, _, hn⟩ := w.toNat_nibbles
  rw [← UInt8.toNat_inj, hn]
  rfl

variable {w w' : Word}

theorem IsSkip.not_diverts (h : w.IsSkip) : ¬ w.Diverts := by
  rw [IsSkip] at h
  rw [Diverts, IsWait]
  omega

theorem Opposes.isSkip (h : w.Opposes w') : w.IsSkip ∧ w'.IsSkip := by
  have hw := w'.toNat_lt
  rw [Opposes] at h
  rw [IsSkip, IsSkip]
  omega

theorem Opposes.second (h : w.Opposes w') : w'.nibbles.second = w.nibbles.second := by
  refine congrArg UInt8.ofNat ?_
  rw [Opposes] at h
  omega

end Word

namespace Instruction

/-- What its word says of an instruction that can lead elsewhere than to the next word, and of the others. -/
def Shows (w : Word) : Instruction → Prop
  | ret => w.toNat = 0x00EE
  | jump nnn => w.toNat / 4096 = 0x1 ∧ nnn.toNat = w.toNat % 4096
  | call nnn => w.toNat / 4096 = 0x2 ∧ nnn.toNat = w.toNat % 4096
  | jumpOffset nnn => w.toNat / 4096 = 0xB ∧ nnn.toNat = w.toNat % 4096
  | skipIfEqual x nn =>
    w.toNat / 4096 = 0x3 ∧ x = w.nibbles.second ∧ nn.toNat = w.toNat % 256
  | skipIfNotEqual x nn =>
    w.toNat / 4096 = 0x4 ∧ x = w.nibbles.second ∧ nn.toNat = w.toNat % 256
  | skipIfSame x y =>
    w.toNat / 4096 = 0x5 ∧ w.toNat % 16 = 0 ∧ x = w.nibbles.second ∧ y = w.nibbles.third
  | skipIfDifferent x y =>
    w.toNat / 4096 = 0x9 ∧ w.toNat % 16 = 0 ∧ x = w.nibbles.second ∧ y = w.nibbles.third
  | skipIfKey x => w.toNat / 4096 = 0xE ∧ w.toNat % 256 = 0x9E ∧ x = w.nibbles.second
  | skipIfNotKey x => w.toNat / 4096 = 0xE ∧ w.toNat % 256 = 0xA1 ∧ x = w.nibbles.second
  | waitKey _ => w.IsWait
  | _ => ¬ w.Diverts ∧ ¬ w.IsSkip

variable {w : Word} {i : Instruction}

theorem shows_of_decode (h : decode w = some i) : i.Shows w := by
  have hw := w.toNat_lt
  obtain ⟨ho, _, _, hn⟩ := w.toNat_nibbles
  have hnn := w.toNat_lowByte
  have hnnn := w.toNat_lowAddress
  have hzero := w.fourth_eq_zero_iff
  simp only [decode, ho, hn, hnn, hnnn, hzero] at h
  split at h
  all_goals try split at h
  all_goals cases h
  -- The digits that tell the instruction are known in each case.
  all_goals simp only [Shows, Word.Diverts, Word.IsWait, Word.IsSkip, hnn, hnnn, and_true]
  all_goals omega

def isSkip : Instruction → Bool
  | skipIfEqual _ _ | skipIfNotEqual _ _ | skipIfSame _ _ | skipIfDifferent _ _ | skipIfKey _
  | skipIfNotKey _ => true
  | _ => false

theorem isSkip_iff_of_decode (h : decode w = some i) : i.isSkip = true ↔ w.IsSkip := by
  have hshows := shows_of_decode h
  cases i with
  | skipIfEqual | skipIfNotEqual | skipIfSame | skipIfDifferent | skipIfKey | skipIfNotKey =>
    refine iff_of_true rfl ?_
    simp only [Shows] at hshows
    rw [Word.IsSkip]
    omega
  | ret | jump | call | jumpOffset | waitKey =>
    refine iff_of_false Bool.false_ne_true ?_
    simp only [Shows, Word.IsWait] at hshows
    rw [Word.IsSkip]
    omega
  | _ => exact iff_of_false Bool.false_ne_true hshows.2

theorem decode_ne_none_of_isSkip (h : w.IsSkip) : decode w ≠ none := by
  obtain ⟨ho, _, _, _⟩ := w.toNat_nibbles
  have hnn := w.toNat_lowByte
  have hzero := w.fourth_eq_zero_iff
  rcases h with h3 | h4 | ⟨h5 | h9, h0⟩ | ⟨hE, h9E | hA1⟩
  · simp [decode, ho, h3]
  · simp [decode, ho, h4]
  · simp [decode, ho, h5, hzero, h0]
  · simp [decode, ho, h9, hzero, h0]
  · simp [decode, ho, hnn, hE, h9E]
  · simp [decode, ho, hnn, hE, hA1]

end Instruction

namespace Session

/-- Whether the next word is a skip whose condition holds. -/
def SkipDue (s : Session) : Prop :=
  let w := s.machine.wordAtPc
  let a := s.machine.registers.get w.nibbles.second
  let b := s.machine.registers.get w.nibbles.third
  (w.toNat / 4096 = 0x3 ∧ a.toNat = w.toNat % 256) ∨
    (w.toNat / 4096 = 0x4 ∧ a.toNat ≠ w.toNat % 256) ∨
    (w.toNat / 4096 = 0x5 ∧ w.toNat % 16 = 0 ∧ a = b) ∨
    (w.toNat / 4096 = 0x9 ∧ w.toNat % 16 = 0 ∧ a ≠ b) ∨
    (w.toNat / 4096 = 0xE ∧ w.toNat % 256 = 0x9E ∧ s.query.1 = some a) ∨
    (w.toNat / 4096 = 0xE ∧ w.toNat % 256 = 0xA1 ∧ s.query.1 ≠ some a)

instance (s : Session) : Decidable s.SkipDue :=
  inferInstanceAs (Decidable (_ ∨ _ ∨ _ ∨ _ ∨ _ ∨ _))

/-- Where the next word leads. -/
def destination (s : Session) : Nat :=
  let m := s.machine
  let w := m.wordAtPc
  if w.toNat / 4096 = 0x1 ∨ w.toNat / 4096 = 0x2 then w.toNat % 4096
  else if w.toNat / 4096 = 0xB then w.toNat % 4096 + (m.registers.get 0).toNat
  else if w.toNat = 0x00EE then (m.stack.frames.headD 0).toNat
  else if w.IsWait ∧ s.query.1 = none then m.pc.toNat
  else if s.SkipDue then m.pc.toNat + 4
  else m.pc.toNat + 2

variable {s t : Session} {i : Instruction}

theorem isSkip_of_skipDue (h : s.SkipDue) : s.machine.wordAtPc.IsSkip := by
  unfold SkipDue at h
  rw [Word.IsSkip]
  omega

theorem skipDue_iff (h : Instruction.decode s.machine.wordAtPc = some i) :
    s.SkipDue ↔ s.skips i = true := by
  have hshows := Instruction.shows_of_decode h
  cases i with
  | skipIfEqual x nn =>
    obtain ⟨hfamily, rfl, hnn⟩ := hshows
    simp [SkipDue, hfamily, ← hnn, skips, UInt8.toNat_inj]
  | skipIfNotEqual x nn =>
    obtain ⟨hfamily, rfl, hnn⟩ := hshows
    simp [SkipDue, hfamily, ← hnn, skips, UInt8.toNat_inj]
  | skipIfSame x y | skipIfDifferent x y =>
    obtain ⟨hfamily, hzero, rfl, rfl⟩ := hshows
    simp [SkipDue, hfamily, hzero, skips]
  | skipIfKey x | skipIfNotKey x =>
    obtain ⟨hfamily, hnn, rfl⟩ := hshows
    simp [SkipDue, hfamily, hnn, skips]
  | _ =>
    have hnot := (Instruction.isSkip_iff_of_decode h).not.mp Bool.false_ne_true
    exact iff_of_false (fun hdue => hnot (isSkip_of_skipDue hdue)) Bool.false_ne_true

theorem destination_of_not_diverts (hnot : ¬ s.machine.wordAtPc.Diverts) :
    s.destination = if s.SkipDue then s.machine.pc.toNat + 4 else s.machine.pc.toNat + 2 := by
  simp only [Word.Diverts, not_or] at hnot
  obtain ⟨h1, h2, hB, hEE, hwait⟩ := hnot
  rw [destination, if_neg (by omega), if_neg hB, if_neg hEE, if_neg fun h => hwait h.1]

theorem toNat_pcAfter_of_not_diverts (hp : s.machine.pc.toNat ≤ 0xFFE)
    (hd : Instruction.decode s.machine.wordAtPc = some i)
    (hnot : ¬ s.machine.wordAtPc.Diverts)
    (hpc : s.ahead.pcAfter i s.machine.pc =
      if s.skips i then UInt16.ofNat (s.ahead.machine.pc.toNat + 2) else s.ahead.machine.pc) :
    (s.ahead.pcAfter i s.machine.pc).toNat = s.destination := by
  have hnext := toNat_pc_ahead hp
  have hbehind : (UInt16.ofNat (s.machine.pc.toNat + 2 + 2)).toNat = s.machine.pc.toNat + 4 := by
    rw [UInt16.toNat_ofNat']
    omega
  rw [hpc, apply_ite UInt16.toNat, hnext, hbehind, destination_of_not_diverts hnot]
  simp only [skipDue_iff hd]

theorem toNat_pcAfter_ahead (hp : s.machine.pc.toNat ≤ 0xFFE)
    (hd : Instruction.decode s.machine.wordAtPc = some i)
    (hret : i = .ret → s.machine.stack.frames ≠ []) :
    (s.ahead.pcAfter i s.machine.pc).toNat = s.destination := by
  have hshows := Instruction.shows_of_decode hd
  cases i with
  | jump nnn | call nnn =>
    obtain ⟨hfamily, hnnn⟩ := hshows
    rw [destination, if_pos (by omega)]
    exact hnnn
  | jumpOffset nnn =>
    obtain ⟨hfamily, hnnn⟩ := hshows
    have hv := (s.machine.registers.get 0).toNat_lt
    rw [destination, if_neg (by omega), if_pos hfamily, pcAfter_jumpOffset, UInt16.toNat_ofNat', hnnn]
    exact Nat.mod_eq_of_lt (by change _ + (s.machine.registers.get 0).toNat < _; omega)
  | ret =>
    have hword : s.machine.wordAtPc.toNat = 0x00EE := hshows
    obtain ⟨a, rest, hframes⟩ := List.exists_cons_of_ne_nil (hret rfl)
    have hahead : s.ahead.machine.stack.frames = a :: rest := hframes
    rw [destination, if_neg (by omega), if_neg (by omega), if_pos hword, pcAfter_ret, hahead, hframes,
      List.headD_cons, List.headD_cons]
  | waitKey x =>
    have hwait : s.machine.wordAtPc.IsWait := hshows
    obtain ⟨hfamily, _⟩ := hwait
    have hasked : s.ahead.query.1 = s.query.1 := rfl
    rw [destination, if_neg (by omega), if_neg (by omega), if_neg (by omega), pcAfter_waitKey, hasked]
    by_cases hkey : s.query.1 = none
    · rw [if_pos hkey, if_pos ⟨hshows, hkey⟩]
    · rw [if_neg hkey, if_neg fun h => hkey h.2, if_neg fun hdue => Bool.false_ne_true ((skipDue_iff hd).mp hdue)]
      exact toNat_pc_ahead hp
  | skipIfEqual | skipIfNotEqual | skipIfSame | skipIfDifferent | skipIfKey | skipIfNotKey =>
    have hskip := (Instruction.isSkip_iff_of_decode hd).mp rfl
    exact toNat_pcAfter_of_not_diverts hp hd hskip.not_diverts rfl
  | _ => exact toNat_pcAfter_of_not_diverts hp hd hshows.1 rfl

theorem step_ret_frames (h : s.step = .done t) (hword : s.machine.wordAtPc = 0x00EE) :
    s.machine.stack.frames = t.machine.pc :: t.machine.stack.frames := by
  obtain ⟨w, i, u, hfetch, he, rfl⟩ := step_done h
  obtain ⟨_, _, hd⟩ := Machine.fetch_eq_ok_iff.mp hfetch
  obtain rfl := Option.some.inj (hd.symm.trans (Instruction.decode_eq_ret_iff.mpr hword))
  have hpop := execute_ret_done he
  exact hpop

/-- A return that is done had an address to go to, so `destination` has no need of its default. -/
theorem step_destination (h : s.step = .done t) : t.machine.pc.toNat = s.destination := by
  obtain ⟨w, i, hfetch, ht⟩ := step_done_eq h
  obtain ⟨hp, _, hd⟩ := Machine.fetch_eq_ok_iff.mp hfetch
  have hpc : t.machine.pc = s.ahead.pcAfter i s.machine.pc := by
    rw [ht]
    rfl
  rw [hpc]
  apply toNat_pcAfter_ahead hp hd
  rintro rfl hempty
  have hpop := step_ret_frames h (Instruction.decode_eq_ret_iff.mp hd)
  rw [hempty] at hpop
  cases hpop

/-- The session with a skip counted, and the keypad asked if it is a skip on a key. -/
def skipped (s : Session) (pc : Address) : Session where
  machine := { s.machine with pc := pc, cycles := s.machine.cycles + 1 }
  keypad := if s.machine.wordAtPc.toNat / 4096 = 0xE then s.keypad.query.2 else s.keypad

theorem step_eq_skipped (h : s.step = .done t) (hskip : s.machine.wordAtPc.IsSkip) :
    t = s.skipped t.machine.pc := by
  obtain ⟨w, i, hfetch, rfl⟩ := step_done_eq h
  obtain ⟨_, _, hd⟩ := Machine.fetch_eq_ok_iff.mp hfetch
  have hshows := Instruction.shows_of_decode hd
  have hi := (Instruction.isSkip_iff_of_decode hd).mpr hskip
  cases i with
  | skipIfEqual | skipIfNotEqual | skipIfSame | skipIfDifferent =>
    have hfamily : s.machine.wordAtPc.toNat / 4096 ≠ 0xE := by
      rw [hshows.1]
      decide
    rw [skipped, if_neg hfamily]
    rfl
  | skipIfKey | skipIfNotKey =>
    rw [skipped, if_pos hshows.1]
    rfl
  | _ => exact absurd hi Bool.false_ne_true

/-! ### Opposite skips -/

variable {memory : Memory}

/-- A skip within memory cannot fail. -/
theorem step_of_isSkip (hp : s.machine.pc.toNat ≤ 0xFFE) (h : s.machine.wordAtPc.IsSkip) :
    ∃ t, s.step = .done t ∧
      t.machine.pc.toNat = if s.SkipDue then s.machine.pc.toNat + 4 else s.machine.pc.toNat + 2 := by
  have hdone : ∃ t, s.step = .done t := by
    rw [step_done_iff, Machine.fault_eq_none_iff hp]
    refine ⟨Instruction.decode_ne_none_of_isSkip h, ?_, ?_⟩
    · rintro ⟨hword, _⟩
      rw [hword] at h
      exact absurd h (by decide)
    · rintro ⟨n, hreach, _⟩
      rw [Word.IsSkip] at h
      rw [Word.Reaches] at hreach
      omega
  obtain ⟨t, ht⟩ := hdone
  exact ⟨t, ht, (step_destination ht).trans (destination_of_not_diverts h.not_diverts)⟩

/-- Opposite skips have the same operands, so just one of them is due in sessions that are the same but for memory. -/
theorem skipDue_withMemory_iff
    (h : s.machine.wordAtPc.Opposes (s.withMemory memory).machine.wordAtPc) :
    (s.withMemory memory).SkipDue ↔ ¬ s.SkipDue := by
  have hregisters : (s.withMemory memory).machine.registers = s.machine.registers := rfl
  have hquery : (s.withMemory memory).query.1 = s.query.1 := rfl
  have hx := h.second
  rcases h with ⟨h3, hsum⟩ | ⟨h5, h0, hsum⟩ | ⟨hE, h9E, hsum⟩
  · have h4 : (s.withMemory memory).machine.wordAtPc.toNat / 4096 = 0x4 := by omega
    have hnn : (s.withMemory memory).machine.wordAtPc.toNat % 256 =
        s.machine.wordAtPc.toNat % 256 := by omega
    simp [SkipDue, hregisters, hx, h3, h4, hnn]
  · have h9 : (s.withMemory memory).machine.wordAtPc.toNat / 4096 = 0x9 := by omega
    have h0' : (s.withMemory memory).machine.wordAtPc.toNat % 16 = 0 := by omega
    have hy : (s.withMemory memory).machine.wordAtPc.nibbles.third =
        s.machine.wordAtPc.nibbles.third := congrArg UInt8.ofNat (by omega)
    simp [SkipDue, hregisters, hx, hy, h5, h9, h0, h0']
  · have hE' : (s.withMemory memory).machine.wordAtPc.toNat / 4096 = 0xE := by omega
    have hA1 : (s.withMemory memory).machine.wordAtPc.toNat % 256 = 0xA1 := by omega
    simp [SkipDue, hregisters, hquery, hx, hE, hE', h9E, hA1]

/-- A step that is done leads where its word says. A return goes to the top of the call stack, a skip moves nothing but
the program counter, the count of instructions and, if it is a skip on a key, the keypad. With everything but the memory
the same, just one of two opposite skips is made. -/
theorem step_leads_to_destination (s : Session) :
    (∀ t, s.step = .done t →
      t.machine.pc.toNat = s.destination ∧
      (s.machine.wordAtPc = 0x00EE → s.machine.stack.frames.head? = some t.machine.pc) ∧
      (s.machine.wordAtPc.IsSkip → t = s.skipped t.machine.pc)) ∧
    ∀ memory : Memory, s.machine.pc.toNat ≤ 0xFFE →
      s.machine.wordAtPc.Opposes (s.withMemory memory).machine.wordAtPc →
      ∃ t u, s.step = .done t ∧ (s.withMemory memory).step = .done u ∧
        ((t.machine.pc.toNat = s.machine.pc.toNat + 4 ∧
            u.machine.pc.toNat = s.machine.pc.toNat + 2) ∨
          (t.machine.pc.toNat = s.machine.pc.toNat + 2 ∧
            u.machine.pc.toNat = s.machine.pc.toNat + 4)) := by
  constructor
  · intro t h
    refine ⟨step_destination h, fun hword => ?_, step_eq_skipped h⟩
    rw [step_ret_frames h hword, List.head?_cons]
  · intro memory hp hopposes
    obtain ⟨t, ht, hpc⟩ := step_of_isSkip hp hopposes.isSkip.1
    obtain ⟨u, hu, hpc'⟩ := step_of_isSkip (s := s.withMemory memory) hp hopposes.isSkip.2
    refine ⟨t, u, ht, hu, ?_⟩
    by_cases hdue : s.SkipDue
    · rw [if_pos hdue] at hpc
      rw [if_neg fun h => (skipDue_withMemory_iff hopposes).mp h hdue] at hpc'
      exact Or.inl ⟨hpc, hpc'⟩
    · rw [if_neg hdue] at hpc
      rw [if_pos ((skipDue_withMemory_iff hopposes).mpr hdue)] at hpc'
      exact Or.inr ⟨hpc, hpc'⟩

/-- A session with a word at 0x200 and one frame on the call stack. Every register holds 0x15, and key 5 is down. -/
def facing (high low : UInt8) : Session where
  machine := { Machine.ofSeed 7 with
    memory := Memory.fresh.putAll 0x200 [high, low]
    registers := ⟨Vector.replicate 16 0x15, 0⟩
    stack := ⟨[0x345]⟩ }
  keypad := Keypad.held 5

/-- The keypad answers with key 5, and this is not 0x15. So E39E leads to the next word and E3A1 to the one behind it. A
return leads to the frame. -/
theorem step_leads_to_destination_key_held :
    (facing 0xE3 0x9E).machine.pc.toNat ≤ 0xFFE ∧
      (facing 0xE3 0x9E).machine.wordAtPc.Opposes (facing 0xE3 0xA1).machine.wordAtPc ∧
      (facing 0xE3 0x9E).machine.wordAtPc.IsSkip ∧
      (∃ t u, (facing 0xE3 0x9E).step = .done t ∧ (facing 0xE3 0xA1).step = .done u ∧
        t.machine.pc.toNat = 0x202 ∧ u.machine.pc.toNat = 0x204 ∧ t.keypad.queries = 1) ∧
      (facing 0x00 0xEE).machine.wordAtPc = 0x00EE ∧
      ∃ t, (facing 0x00 0xEE).step = .done t ∧ t.machine.pc = 0x345 := by
  have hp : (facing 0xE3 0x9E).machine.pc.toNat ≤ 0xFFE := by decide
  have hw : (facing 0xE3 0x9E).machine.wordAtPc = 0xE39E :=
    Machine.wordAtPc_of_program Memory.fresh [0xE3, 0x9E] 0 rfl rfl (by decide) (by decide)
  have hw' : (facing 0xE3 0xA1).machine.wordAtPc = 0xE3A1 :=
    Machine.wordAtPc_of_program Memory.fresh [0xE3, 0xA1] 0 rfl rfl (by decide) (by decide)
  have hret : (facing 0x00 0xEE).machine.wordAtPc = 0x00EE :=
    Machine.wordAtPc_of_program Memory.fresh [0x00, 0xEE] 0 rfl rfl (by decide) (by decide)
  have hopposes : (facing 0xE3 0x9E).machine.wordAtPc.Opposes (facing 0xE3 0xA1).machine.wordAtPc := by
    rw [hw, hw']
    exact Or.inr (Or.inr (by decide))
  have hskip : (facing 0xE3 0x9E).machine.wordAtPc.IsSkip := by
    rw [hw]
    decide
  have hdestination : (facing 0xE3 0x9E).destination = 0x202 := by
    simp only [destination, SkipDue, hw]
    decide
  refine ⟨hp, hopposes, hskip, ?_, hret, ?_⟩
  · obtain ⟨hdone, hpair⟩ := step_leads_to_destination (facing 0xE3 0x9E)
    obtain ⟨t, u, ht, hu, happart⟩ := hpair (facing 0xE3 0xA1).machine.memory hp hopposes
    obtain ⟨hpc, _, hframe⟩ := hdone t ht
    have hhere : (facing 0xE3 0x9E).machine.pc.toNat = 0x200 := by decide
    refine ⟨t, u, ht, hu, hpc.trans hdestination, by omega, ?_⟩
    rw [hframe hskip, skipped, hw, if_pos (by decide)]
    rfl
  · have hfetch : (facing 0x00 0xEE).machine.fetch = .ok (0x00EE, .ret) :=
      Machine.fetch_eq_ok_iff.mpr ⟨by decide, hret.symm, Instruction.decode_eq_ret_iff.mpr hret⟩
    have hstep := step_of_ok hfetch
    obtain ⟨hdone, _⟩ := step_leads_to_destination (facing 0x00 0xEE)
    refine ⟨_, hstep, ?_⟩
    exact (Option.some.inj ((hdone _ hstep).2.1 hret)).symm

end Session

end Chip8
