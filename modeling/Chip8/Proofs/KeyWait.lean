import Chip8.Proofs.KeyScript
import Chip8.Proofs.Trace

/-!
# Waiting for a key

Fx0A asks the keypad which key is down. While there is none it puts the program counter back to itself, so that the next
step fetches it again and asks again: the wait goes on for as long as the keypad says so, and nothing happens but that
steps and queries are counted and the timers tick. The first key goes to Vx, and the program goes on behind the wait.
-/
namespace Chip8

/-- Whether an event is a step or a number of ticks. -/
def Event.IsRun : Event → Prop
  | step | tick _ => True
  | _ => False

/-- The number of steps among events. -/
def stepsIn : List Event → Nat
  | [] => 0
  | .step :: rest => stepsIn rest + 1
  | _ :: rest => stepsIn rest

/-- The number of ticks among events. -/
def ticksIn : List Event → Nat
  | [] => 0
  | .tick n :: rest => n + ticksIn rest
  | _ :: rest => ticksIn rest

theorem Timers.tickMany_add (t : Timers) (m n : Nat) :
    ((t.tickMany m).1.tickMany n).1 = (t.tickMany (m + n)).1 := by
  induction n with
  | zero => rfl
  | succ n ih => exact congrArg (fun u : Timers => u.tick.1) ih

/-- The word Fx0A, read as a number, is the wait for a key that goes to Vx. -/
theorem Instruction.decode_of_wait {w : Word} {x : UInt8}
    (h : w.toNat = 0xF00A + 0x100 * x.toNat) : decode w = some (.waitKey x) := by
  have hw := w.toNat_lt
  obtain ⟨ho, hx, _, _⟩ := w.toNat_nibbles
  have hnn := w.toNat_lowByte
  have hfirst : w.toNat / 4096 = 0xF := by omega
  have hlow : w.toNat % 256 = 0x0A := by omega
  obtain rfl : w.nibbles.second = x := UInt8.toNat_inj.mp (by omega)
  simp only [decode, ho, hnn, hfirst, hlow]

namespace Keypad

variable {m j : Nat} {k : UInt8} {rest : List (Option UInt8)}

/-- A script that begins with entries without a key answers so many queries without one. -/
theorem answer_scripted_of_lt (hj : j < m) :
    (scripted (List.replicate m none ++ some k :: rest)).answer j = none := by
  have hentry : (List.replicate m none ++ some k :: rest)[j]? = some none := by
    rw [List.getElem?_append_left (by rwa [List.length_replicate]),
      List.getElem?_replicate_of_lt hj]
  simp only [scripted, hentry, Option.join_some, Option.map_none]

theorem answer_scripted_first_key :
    (scripted (List.replicate m none ++ some k :: rest)).answer m = some (key k) := by
  have hentry : (List.replicate m none ++ some k :: rest)[m]? = some (some k) := by
    rw [List.getElem?_append_right (Nat.le_of_eq List.length_replicate), List.length_replicate,
      Nat.sub_self, List.getElem?_cons_zero]
  simp only [scripted, hentry, Option.join_some, Option.map_some]

end Keypad

namespace Session

/-- The session after so many polls of the keypad that brought no key, and so many ticks. -/
def waited (s : Session) (polls ticks : Nat) : Session where
  machine := { s.machine with
    timers := (s.machine.timers.tickMany ticks).1
    cycles := s.machine.cycles + polls }
  keypad := { s.keypad with queries := s.keypad.queries + polls }

/-- The session after a poll that brought a key. -/
def resumed (s : Session) (x key : UInt8) : Session where
  machine := { s.machine with
    registers := s.machine.registers.set x key
    pc := UInt16.ofNat (s.machine.pc.toNat + 2)
    cycles := s.machine.cycles + 1 }
  keypad := s.keypad.query.2

variable {s : Session} {w : Word} {x key : UInt8} {events : List Event}

theorem waited_waited (s : Session) (m n ticks more : Nat) :
    (s.waited m ticks).waited n more = s.waited (m + n) (ticks + more) := by
  simp only [waited, Timers.tickMany_add, Nat.add_assoc]

/-- A poll that brings no key. -/
theorem step_of_no_key (hwait : s.machine.fetch = .ok (w, .waitKey x))
    (hkey : s.keypad.answer s.keypad.queries = none) : s.step = .done (s.waited 1 0) := by
  have hquery : s.ahead.keypad.answer s.ahead.keypad.queries = none := hkey
  rw [step_of_ok hwait]
  simp only [execute, query, Keypad.query, hquery]
  rfl

/-- A poll that brings a key. -/
theorem step_of_key (hwait : s.machine.fetch = .ok (w, .waitKey x))
    (hkey : s.keypad.answer s.keypad.queries = some key) : s.step = .done (s.resumed x key) := by
  have hquery : s.ahead.keypad.answer s.ahead.keypad.queries = some key := hkey
  rw [step_of_ok hwait]
  simp only [execute, query, Keypad.query, hquery]
  rfl

/-- As long as no poll brings a key the program is still at the wait. -/
theorem play?_of_no_key (hwait : s.machine.fetch = .ok (w, .waitKey x))
    (hruns : ∀ e ∈ events, e.IsRun)
    (hkeys : ∀ j < stepsIn events, s.keypad.answer (s.keypad.queries + j) = none) :
    s.play? events = some (s.waited (stepsIn events) (ticksIn events)) := by
  -- The wait is fetched anew by every step, from the memory and the program counter that it leaves alone.
  induction events generalizing s with
  | nil => rfl
  | cons e rest ih =>
    have hruns' : ∀ e ∈ rest, e.IsRun := fun e he => hruns e (List.mem_cons_of_mem _ he)
    cases e with
    | step =>
      have hstep := step_of_no_key hwait (hkeys 0 (Nat.succ_pos _))
      have hkeys' : ∀ j < stepsIn rest,
          (s.waited 1 0).keypad.answer ((s.waited 1 0).keypad.queries + j) = none := by
        intro j hj
        have hnext := hkeys (j + 1) (Nat.succ_lt_succ hj)
        rwa [Nat.add_comm j 1, ← Nat.add_assoc] at hnext
      have hrest := ih (s := s.waited 1 0) hwait hruns' hkeys'
      rw [play?_cons, after?_step_of_done hstep, Option.bind_some, hrest, waited_waited,
        Nat.add_comm, Nat.zero_add]
      rfl
    | tick n =>
      have hrest := ih (s := s.waited 0 n) hwait hruns' hkeys
      have htick : s.after? (.tick n) = some (s.waited 0 n) := rfl
      rw [play?_cons, htick, Option.bind_some, hrest, waited_waited, Nat.zero_add]
      rfl
    | keypad k => exact (hruns _ List.mem_cons_self).elim
    | edit t => exact (hruns _ List.mem_cons_self).elim

/-- A machine that stands at Fx0A waits for as long as the keypad reports no key: if the script of the keypad goes on
with `m` entries without a key and then a key, then after any steps and ticks with at most `m` steps among them the
machine is as it was, but for the timers, which have ticked, and the steps, which are counted. After `m` steps the
next one puts the low digit of the key into Vx and moves the program counter to the next word. A keypad that never
reports a key keeps the machine waiting through any steps and ticks, and no step fails. -/
theorem key_wait_resumes (s : Session) (x : UInt8) (hpc : s.machine.pc.toNat ≤ 0xFFE)
    (hword : s.machine.wordAtPc.toNat = 0xF00A + 0x100 * x.toNat) :
    (∀ script m k rest, s.keypad.answer = (Keypad.scripted script).answer →
      script.drop s.keypad.queries = List.replicate m none ++ some k :: rest →
      ∀ events : List Event, (∀ e ∈ events, e.IsRun) → stepsIn events ≤ m →
        let t := s.waited (stepsIn events) (ticksIn events)
        let u := t.resumed x (Keypad.key k)
        s.play? events = some t ∧
          (stepsIn events = m → t.step = .done u ∧
            u.machine.pc.toNat = s.machine.pc.toNat + 2 ∧
            (u.machine.registers.get x).toNat = k.toNat % 16 ∧
            script.drop u.keypad.queries = rest)) ∧
    ((∀ j, s.keypad.answer (s.keypad.queries + j) = none) →
      ∀ events : List Event, (∀ e ∈ events, e.IsRun) →
        s.play? events = some (s.waited (stepsIn events) (ticksIn events))) := by
  have hwait : s.machine.fetch = .ok (s.machine.wordAtPc, .waitKey x) :=
    Machine.fetch_of_decoded hpc (Instruction.decode_of_wait hword)
  constructor
  · intro script m k rest hscript hdrop events hruns hsteps t u
    have hanswer : ∀ j, s.keypad.answer (s.keypad.queries + j) =
        (Keypad.scripted (List.replicate m none ++ some k :: rest)).answer j := by
      intro j
      rw [hscript, Keypad.answer_scripted_add, hdrop]
    refine ⟨play?_of_no_key hwait hruns ?_, fun hm => ⟨?_, ?_, ?_, ?_⟩⟩
    · intro j hj
      rw [hanswer, Keypad.answer_scripted_of_lt (Nat.lt_of_lt_of_le hj hsteps)]
    · have hkey : t.keypad.answer t.keypad.queries = some (Keypad.key k) := by
        change s.keypad.answer (s.keypad.queries + stepsIn events) = _
        rw [hm, hanswer, Keypad.answer_scripted_first_key]
      exact step_of_key hwait hkey
    · change (UInt16.ofNat (s.machine.pc.toNat + 2)).toNat = _
      rw [UInt16.toNat_ofNat']
      omega
    · change ((s.machine.registers.set x (Keypad.key k)).get x).toNat = _
      rw [Registers.get_set, if_pos rfl, Keypad.key, UInt8.toNat_ofNat']
      omega
    · change script.drop (s.keypad.queries + stepsIn events + 1) = rest
      rw [hm, Nat.add_assoc, ← List.drop_drop, hdrop, ← List.drop_drop,
        List.drop_left' List.length_replicate]
      rfl
  · intro hnone events hruns
    exact play?_of_no_key hwait hruns fun j _ => hnone j

/-- A session at a wait in the last word of memory. The keypad was asked once before. -/
def polling (keypad : Keypad) : Session where
  machine := { Machine.ofSeed 7 with memory := Memory.fresh.putAll 0xFFE [0xF5, 0x0A], pc := 0xFFE }
  keypad := { keypad with queries := 1 }

def lateKey : List (Option UInt8) := [some 1, none, none, some 0x2B]

def twoPolls : List Event := [.tick 3, .step, .tick 1, .step, .tick 2]

/-- Two polls bring no key and the third one does. On a keypad that nobody touches the wait goes on. -/
theorem key_wait_resumes_third_poll :
    0xFFE ≤ 0xFFE ∧ (polling Keypad.untouched).machine.wordAtPc.toNat = 0xF00A + 0x100 * 5 ∧
      (∃ t u, (polling (Keypad.scripted lateKey)).play? twoPolls = some t ∧
        t.machine.cycles = 2 ∧ t.step = .done u ∧ u.machine.pc = 0x1000 ∧
        (u.machine.registers.get 5).toNat = 0xB) ∧
      ∃ t, (polling Keypad.untouched).play? twoPolls = some t ∧ t.machine.cycles = 2 := by
  have hpc : 0xFFE ≤ 0xFFE := Nat.le_refl _
  have hword : (polling Keypad.untouched).machine.wordAtPc.toNat = 0xF00A + 0x100 * 5 := by
    simp only [Machine.wordAtPc, polling, Memory.byte_putAll]
    decide
  have hruns : ∀ e ∈ twoPolls, e.IsRun := by
    simp [twoPolls, Event.IsRun]
  obtain ⟨hscripted, _⟩ := key_wait_resumes (polling (Keypad.scripted lateKey)) 5 hpc hword
  obtain ⟨_, hnever⟩ := key_wait_resumes (polling Keypad.untouched) 5 hpc hword
  obtain ⟨hplay, hresumes⟩ :=
    hscripted lateKey 2 0x2B [] rfl rfl twoPolls hruns (Nat.le_refl 2)
  obtain ⟨hstep, _, hkey, _⟩ := hresumes rfl
  exact ⟨hpc, hword, ⟨_, _, hplay, rfl, hstep, rfl, hkey⟩, _,
    hnever (fun _ => rfl) twoPolls hruns, rfl⟩

end Session

end Chip8
