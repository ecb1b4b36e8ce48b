import Chip8.Command.Basic
import Chip8.Proofs.Iteration
import Chip8.Proofs.Loading
import Chip8.Proofs.Running
import Chip8.Proofs.Surroundings

/-!
# The command line and its parts

What a command leaves behind is what its parts come to one after the other: the listing, a fresh machine with the image
loaded, steps until the limit is reached or one fails, and the screen then. The clock beside the run makes no difference
to a program that does not read the delay timer, and the random numbers of a machine without a seed none to one that masks
them all out.
-/
namespace Chip8

namespace Run

variable {known : Prop} {s : Session} {r : Run} {ticks : Nat → Nat} {n patience : Nat}

end Run

namespace Command.Request

/-- A fresh machine that has of the request nothing but the seed. -/
def machine (q : Request) (entropy : Random.Key) : Machine :=
  Machine.ofConfig { Config.standard with seed := q.seed } entropy

end Command.Request

end Chip8
