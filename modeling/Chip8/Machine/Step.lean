import Chip8.Instruction.Code
import Chip8.Machine.Execute

/-!
# Steps

A step fetches the word at the program counter, decodes it and executes the instruction. A word that cannot
be fetched or decoded leaves the session alone. The program counter moves before the instruction is executed, and
back if the instruction fails.
-/
namespace Chip8

/-- The word at the program counter and its instruction. -/
def Machine.fetch (m : Machine) : Except Fault (Word × Instruction) :=
  match m.memory.word m.pc.toNat with
  | .error e => .error (e.fault m.pc)
  | .ok w =>
    match Instruction.decode w with
    | some i => .ok (w, i)
    | none => .error (.invalidInstruction w m.pc)

namespace Session

/-- Counts an instruction as executed. The count has no greatest value, so it does not overflow. -/
def count (s : Session) : Session :=
  { s with machine := { s.machine with cycles := s.machine.cycles + 1 } }

def step (s : Session) : Outcome Session :=
  match s.machine.fetch with
  | .error f => .faulted f s
  | .ok (_, i) =>
    let here := s.machine.pc
    match here.plus? 2 with
    | none => .trapped .addressOverflow s
    | some next =>
      match (s.setPc next).execute i here with
      | .done after => .done after.count
      | .faulted f after => .faulted f (after.setPc here)
      | .trapped t after => .trapped t after

end Session

end Chip8
