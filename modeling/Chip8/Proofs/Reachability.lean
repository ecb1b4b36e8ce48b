import Chip8.Proofs.ControlFlow
import Chip8.Proofs.Loading
import Chip8.Proofs.Operation
import Chip8.Proofs.Subroutine

/-!
# What a machine can come to

Program counter and call stack hold each other within bounds: a return takes the program counter to an address from
the stack, and a call puts the program counter there. The furthest jump goes to 0x10FE, and a return address lies behind
a word of memory. The depth of the stack is the number of calls that have not returned.
-/
namespace Chip8

def Instruction.isCall : Instruction → Bool
  | call _ => true
  | _ => false

namespace Session

structure Bounded (s : Session) : Prop where
  pc : s.machine.pc.toNat ≤ 0x10FE
  frames : ∀ a ∈ s.machine.stack.frames, 2 ≤ a.toNat ∧ a.toNat ≤ 0x1000

variable {s t : Session} {w : Word} {i : Instruction} {here : Address}

/-- Where a decoded instruction can go from a program counter that fetching has moved. -/
theorem pcAfter_le (hi : i.InRange) (hpc : s.machine.pc.toNat ≤ 0x1000)
    (hhere : here.toNat ≤ 0x1000)
    (hframes : ∀ a ∈ s.machine.stack.frames, 2 ≤ a.toNat ∧ a.toNat ≤ 0x1000) :
    (s.pcAfter i here).toNat ≤ 0x10FE := by
  have hskip : ∀ condition : Bool,
      (if condition then UInt16.ofNat (s.machine.pc.toNat + 2) else s.machine.pc).toNat
        ≤ 0x10FE := by
    intro condition
    cases condition with
    | true =>
      simp only [if_true, UInt16.toNat_ofNat']
      omega
    | false => exact Nat.le_trans hpc (by decide)
  cases i with
  | jump nnn | call nnn => exact Nat.le_trans (Nat.le_of_lt hi) (by decide)
  | ret =>
    rw [pcAfter_ret]
    cases hs : s.machine.stack.frames with
    | nil => exact Nat.le_trans hpc (by decide)
    | cons a rest =>
      rw [hs] at hframes
      exact Nat.le_trans (hframes a List.mem_cons_self).2 (by decide)
  | jumpOffset nnn =>
    -- The bound comes from here: 0xFFF and a register of 0xFF.
    have hv := (s.machine.registers.get 0).toNat_lt
    change nnn.toNat < 4096 at hi
    simp only [pcAfter_jumpOffset, UInt16.toNat_ofNat']
    omega
  | waitKey x =>
    rw [pcAfter_waitKey]
    split
    · exact Nat.le_trans hhere (by decide)
    · exact Nat.le_trans hpc (by decide)
  | _ => exact hskip _

theorem step_bounded (hs : s.Bounded) (h : s.step = .done t) : t.Bounded := by
  refine ⟨?_, ?_⟩
  · obtain ⟨w, i, u, hfetch, he, rfl⟩ := step_done h
    obtain ⟨hp, _, hd⟩ := Machine.fetch_eq_ok_iff.mp hfetch
    have hahead := toNat_pc_ahead hp
    change u.machine.pc.toNat ≤ 0x10FE
    rw [execute_pc he]
    exact pcAfter_le (Instruction.decode_inRange hd) (by omega) (by omega) hs.frames
  · intro a ha
    rcases step_stack_cases h with hsame | ⟨back, hcall, hpush⟩ | ⟨_, hpop⟩
    · rw [hsame] at ha
      exact hs.frames a ha
    · rw [hpush] at ha
      rcases List.mem_cons.mp ha with rfl | ha
      · -- A call pushes the address behind a word that was fetched.
        obtain ⟨w, nnn, u, hfetch, _, hback⟩ := hcall
        have hp := (Machine.fetch_eq_ok_iff.mp hfetch).1
        omega
      · exact hs.frames a ha
    · apply hs.frames a
      rw [hpop]
      exact List.mem_cons_of_mem _ ha

/-- What holds of `t` if it comes from `s` by executing `instructions`: it is within bounds if `s` is, and its stack is
deeper by the calls and less deep by the returns among them. -/
structure Follows (s : Session) (instructions : List Instruction) (t : Session) : Prop where
  bounded : s.Bounded → t.Bounded
  depth : t.machine.stack.depth + instructions.count .ret =
    s.machine.stack.depth + instructions.countP Instruction.isCall

theorem Follows.trans {u : Session} {first second : List Instruction} (ht : s.Follows first t)
    (hu : t.Follows second u) : s.Follows (first ++ second) u := by
  refine ⟨fun hs => hu.bounded (ht.bounded hs), ?_⟩
  have hfirst := ht.depth
  have hsecond := hu.depth
  rw [List.count_append, List.countP_append]
  omega

/-- What moves neither program counter nor call stack. -/
theorem follows_of_same (hpc : t.machine.pc = s.machine.pc)
    (hstack : t.machine.stack = s.machine.stack) : s.Follows [] t := by
  refine ⟨fun hs => ⟨?_, ?_⟩, congrArg CallStack.depth hstack⟩
  · rw [hpc]
    exact hs.pc
  · rw [hstack]
    exact hs.frames

theorem step_depth (hfetch : s.machine.fetch = .ok (w, i)) (h : s.step = .done t) :
    t.machine.stack.depth + [i].count .ret =
      s.machine.stack.depth + [i].countP Instruction.isCall := by
  obtain ⟨_, j, u, hfetch', he, rfl⟩ := step_done h
  rw [hfetch] at hfetch'
  cases hfetch'
  have hframed := s.ahead.execute_framed i s.machine.pc
  rw [he] at hframed
  have hstack : u.count.machine.stack = s.ahead.machine.stackAfter i := hframed.stack
  cases i with
  | ret =>
    have hpop := congrArg List.length (execute_ret_done he)
    rw [List.length_cons] at hpop
    exact hpop.symm
  | _ =>
    rw [hstack]
    rfl

/-- Of all events only steps that are done move the program counter and the call stack. -/
theorem after_follows (s : Session) (e : Event) : s.Follows (s.executedBy e) (s.after e) := by
  cases e with
  | step =>
    cases h : s.step with
    | done t =>
      obtain ⟨w, i, _, hfetch, _, _⟩ := step_done h
      rw [after_step_of_done h, executedBy, executed?_of_done hfetch h]
      exact ⟨fun hs => step_bounded hs h, step_depth hfetch h⟩
    | faulted f t =>
      rw [after_step_of_faulted h, executedBy, executed?_of_faulted h]
      exact follows_of_same rfl rfl
    | trapped trap t => exact absurd h step_ne_trapped
  | tick n => exact follows_of_same rfl rfl
  | keypad k => exact follows_of_same rfl rfl
  | edit u => exact follows_of_same rfl rfl

theorem play_follows (s : Session) (events : List Event) :
    s.Follows (s.executed events) (s.play events) := by
  induction events generalizing s with
  | nil => exact follows_of_same rfl rfl
  | cons e rest ih => exact (s.after_follows e).trans (ih (s.after e))

theorem perform_follows (s : Session) (o : Operation) :
    s.Follows (s.executed (s.eventsOf o)) (s.perform o) := by
  rcases s.perform_cases o with ⟨image, hload, hevents⟩ | hplay
  · rw [hload, hevents]
    rcases s.machine.load_state_cases image with hsame | ⟨memory, hloaded⟩
    · rw [hsame]
      exact follows_of_same rfl rfl
    · rw [hloaded]
      refine ⟨fun hs => ⟨?_, hs.frames⟩, rfl⟩
      change Image.base.toNat ≤ 0x10FE
      decide
  · rw [hplay]
    exact s.play_follows _

theorem performAll_follows (s : Session) (operations : List Operation) :
    s.Follows (s.executedAll operations) (s.performAll operations) := by
  induction operations generalizing s with
  | nil => exact follows_of_same rfl rfl
  | cons o rest ih => exact (s.perform_follows o).trans (ih (s.perform o))

theorem fresh_bounded (config : Config) (entropy : Random.Key) (k : Keypad) :
    Bounded ⟨Machine.ofConfig config entropy, k⟩ := by
  refine ⟨?_, fun a ha => absurd ha List.not_mem_nil⟩
  change Image.base.toNat ≤ 0x10FE
  decide

/-- Whatever a host asks of a machine that it has made, the program counter does not go beyond 0x10FE, return
addresses lie between 2 and 0x1000, and the stack is as deep as there were more calls than returns. A program counter
behind the last word makes the next step fail, so that what is fetched are two bytes of memory. -/
theorem reachable_within_bounds (config : Config) (entropy : Random.Key) (k : Keypad)
    (operations : List Operation) :
    let s : Session := ⟨Machine.ofConfig config entropy, k⟩
    let t := s.performAll operations
    t.machine.pc.toNat ≤ 0x10FE ∧
      (∀ a ∈ t.machine.stack.frames, 2 ≤ a.toNat ∧ a.toNat ≤ 0x1000) ∧
      (t.machine.stack.depth : Int) =
        (s.executedAll operations).countP Instruction.isCall -
          (s.executedAll operations).count .ret ∧
      (0xFFE < t.machine.pc.toNat →
        t.step = .faulted (.addressOutOfBounds (max t.machine.pc.toNat 0x1000) t.machine.pc) t) ∧
      ∀ w i, t.machine.fetch = .ok (w, i) → t.machine.pc.toNat + 1 < Memory.size ∧
        w = Word.ofBytes (t.machine.memory.byte t.machine.pc.toNat)
          (t.machine.memory.byte (t.machine.pc.toNat + 1)) := by
  intro s t
  have hfollows : s.Follows (s.executedAll operations) t := s.performAll_follows operations
  have hbounded := hfollows.bounded (fresh_bounded config entropy k)
  have hdepth := hfollows.depth
  have hfresh : s.machine.stack.depth = 0 := rfl
  refine ⟨hbounded.pc, hbounded.frames, ?_, ?_, ?_⟩
  · omega
  · intro h
    exact step_of_error (Machine.fetch_of_lt h)
  · intro w i hfetch
    obtain ⟨hp, hw, _⟩ := Machine.fetch_eq_ok_iff.mp hfetch
    exact ⟨by rw [Memory.size]; omega, hw⟩

/-- Sets V0 to 0xFF and jumps from there as far as a jump can go. -/
def furthestJump : Image := ⟨[0x60, 0xFF, 0xBF, 0xFF]⟩

/-- The session after a run that reaches the furthest address. -/
def furthest : Session :=
  performAll ⟨Machine.ofConfig Config.standard (Random.keyOf 7), Keypad.untouched⟩
    [.load furthestJump, .tick 2, .run (fun _ => 1) 5]

/-- The bound is attained, and nothing can be fetched there. -/
theorem reachable_within_bounds_furthest :
    furthest.machine.pc = 0x10FE ∧
      furthest.step = .faulted (.addressOutOfBounds 0x10FE 0x10FE) furthest := by
  have hpc : furthest.machine.pc = 0x10FE := by decide +kernel
  have hbounds := reachable_within_bounds Config.standard (Random.keyOf 7) Keypad.untouched
    [.load furthestJump, .tick 2, .run (fun _ => 1) 5]
  dsimp only at hbounds
  rw [← furthest, hpc] at hbounds
  obtain ⟨_, _, _, hbehind, _⟩ := hbounds
  exact ⟨hpc, hbehind (by decide)⟩

end Session

end Chip8
