import Chip8.Fault
import Chip8.Image.Basic

/-!
# Reading an image

A supply hands out bytes piece by piece. One call has room for so many bytes and takes at most those of
one piece; what does not fit stays for the next call. An image is read to the end: interrupted calls are
made again, a call that brings no byte ends the image, and a failure is passed on.
-/
namespace Chip8

/-- What a supply holds ready. -/
inductive Supply.Event where
  | piece (bytes : List UInt8)
  | interrupted
  | failure (reason : String)
deriving DecidableEq, Repr

abbrev Supply := List Supply.Event

namespace Supply

/-- What one call brings. -/
inductive Reply where
  | bytes (bytes : List UInt8)
  | interrupted
  | failure (reason : String)
deriving DecidableEq, Repr

/-- One call with room for `room` bytes: what it brings and the supply after it. An exhausted supply
brings no byte. -/
def take (room : Nat) : Supply → Reply × Supply
  | [] => (.bytes [], [])
  | .piece bytes :: rest =>
    if bytes.length ≤ room then (.bytes bytes, rest)
    else (.bytes (bytes.take room), .piece (bytes.drop room) :: rest)
  | .interrupted :: rest => (.interrupted, rest)
  | .failure reason :: rest => (.failure reason, rest)

def Event.weight : Event → Nat
  | piece bytes => bytes.length + 1
  | interrupted => 1
  | failure _ => 1

/-- The calls that a supply can answer before it is exhausted, at most. -/
def weight : Supply → Nat
  | [] => 0
  | e :: rest => e.weight + weight rest

/-- A call with room uses up something of a supply that is not exhausted. -/
theorem weight_take_lt {supply : Supply} (room : Nat) (h : supply ≠ []) :
    weight (supply.take (room + 1)).2 < weight supply := by
  cases supply with
  | nil => exact absurd rfl h
  | cons e rest =>
    cases e with
    | piece bytes =>
      simp only [take]
      split
      · simp only [weight, Event.weight]
        omega
      · simp only [weight, Event.weight, List.length_drop]
        omega
    | interrupted => simp [take, weight, Event.weight]
    | failure reason => simp [take, weight, Event.weight]

/-- All bytes up to the end, if no failure comes first. Call number `call` has room for `rooms call + 1`
bytes. -/
def readAll (rooms : Nat → Nat) (call : Nat) (supply : Supply) : Except String (List UInt8) :=
  if h : supply = [] then .ok []
  else
    have _shorter := weight_take_lt (rooms call) h
    match reply : supply.take (rooms call + 1) with
    | (.bytes [], _) => .ok []
    | (.bytes (b :: bytes), rest) =>
      match readAll rooms (call + 1) rest with
      | .ok more => .ok (b :: bytes ++ more)
      | .error reason => .error reason
    | (.interrupted, rest) => readAll rooms (call + 1) rest
    | (.failure reason, _) => .error reason
termination_by weight supply
decreasing_by all_goals simpa [reply] using _shorter

end Supply

/-- The image that a supply holds, or the failure that keeps it from being read. -/
def Image.read (rooms : Nat → Nat) (supply : Supply) : Except Fault Image :=
  match supply.readAll rooms 0 with
  | .ok bytes => .ok ⟨bytes⟩
  | .error reason => .error (.unreadable reason)

end Chip8
