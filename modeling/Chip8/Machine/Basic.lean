import Chip8.CallStack
import Chip8.Keypad
import Chip8.Memory.Basic
import Chip8.Random.Source
import Chip8.Registers.Basic
import Chip8.Screen.Basic
import Chip8.Timers.Basic

/-!
# The machine

A machine is the sum of its parts: memory, registers, call stack, screen, timers, a source of random
numbers, the program counter and a count of the instructions executed. A session is a machine with a keypad.
-/
namespace Chip8

/-- How a machine is run: instructions per second (zero is as fast as possible), a limit on the steps of a
run, and a seed for its random numbers. -/
structure Config where
  rate : Nat
  limit : Option Nat
  seed : Option UInt64
deriving DecidableEq, Repr

/-- 700 instructions per second, no limit and no seed. -/
def Config.standard : Config := ⟨700, none, none⟩

structure Machine where
  memory : Memory
  registers : Registers
  stack : CallStack
  screen : Screen
  timers : Timers
  random : Random.Source
  pc : Address
  /-- The instructions executed so far. This count does not overflow. A counter of 64 bits agrees with it for the first
  2 ^ 64 steps, more than a machine takes in centuries. -/
  cycles : Nat
  config : Config
deriving DecidableEq

/-- What makes a machine trap: a request that the instruction set cannot express. -/
inductive Trap where
  /-- A sum of addresses needs more than sixteen bits. -/
  | addressOverflow
  /-- Registers past VF are asked for. -/
  | registerRange
deriving DecidableEq, Repr

/-- How an action ends, and the state that it leaves. -/
inductive Outcome (σ : Type) where
  | done (s : σ)
  | faulted (f : Fault) (s : σ)
  | trapped (t : Trap) (s : σ)

/-- The state that an action leaves. -/
def Outcome.state {σ : Type} : Outcome σ → σ
  | done s => s
  | faulted _ s => s
  | trapped _ s => s

/-- The same ending with another view of the state. -/
def Outcome.map {σ τ : Type} (f : σ → τ) : Outcome σ → Outcome τ
  | done s => .done (f s)
  | faulted fault s => .faulted fault (f s)
  | trapped trap s => .trapped trap (f s)

namespace Machine

/-- A fresh machine. Without a seed its random numbers come from `entropy`. -/
def ofConfig (config : Config) (entropy : Random.Key) : Machine where
  memory := Memory.fresh
  registers := Registers.fresh
  stack := CallStack.empty
  screen := Screen.blank
  timers := Timers.stopped
  random :=
    match config.seed with
    | some seed => Random.Source.ofSeed seed
    | none => Random.Source.ofKey entropy
  pc := Image.base
  cycles := 0
  config := config

/-- A fresh machine whose random numbers are those of a seed. -/
def ofSeed (seed : UInt64) : Machine :=
  ofConfig { Config.standard with seed := some seed } (Random.keyOf seed)

/-- Copies an image into memory and points the program counter at it. -/
def load (m : Machine) (image : Image) : Outcome Machine :=
  match m.memory.load image with
  | .ok memory => .done { m with memory := memory, pc := Image.base }
  | .error f => .faulted f m

/-- Ticks the timers `n` times, and the number of tones heard. -/
def tick (m : Machine) (n : Nat) : Machine × Nat :=
  let (timers, tones) := m.timers.tickMany n
  ({ m with timers := timers }, tones)

end Machine

structure Session where
  machine : Machine
  keypad : Keypad

end Chip8
