/-!
# Timers

A timer is a byte that counts down to zero and stays there. The machine has two, one for delays and one for
sound; a tick counts both down, and a tone is heard on each tick that the sound timer still counts.
-/
namespace Chip8

/-- A timer after a tick, and whether it counted down. -/
def Timer.tick (value : UInt8) : UInt8 × Bool :=
  if value = 0 then (value, false) else (value - 1, true)

structure Timers where
  delay : UInt8
  sound : UInt8
deriving DecidableEq, Repr

namespace Timers

def stopped : Timers := ⟨0, 0⟩

def tickDelay (t : Timers) : Timers := { t with delay := (Timer.tick t.delay).1 }

/-- Ticks the sound timer, and whether a tone is heard. -/
def tickSound (t : Timers) : Timers × Bool :=
  ({ t with sound := (Timer.tick t.sound).1 }, (Timer.tick t.sound).2)

/-- Ticks both timers, delay first, and whether a tone is heard. -/
def tick (t : Timers) : Timers × Bool := t.tickDelay.tickSound

/-- Ticks both timers `n` times, and the number of tones heard. -/
def tickMany (n : Nat) (t : Timers) : Timers × Nat :=
  Nat.repeat (fun heard => (heard.1.tick.1, heard.2 + heard.1.tick.2.toNat)) n (t, 0)

end Timers

end Chip8
