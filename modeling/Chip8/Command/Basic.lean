import Chip8.Command.Arguments
import Chip8.Command.Failure
import Chip8.Machine.Run
import Chip8.Screen.Text

/-!
# The command line

A request is carried out by loading its program on a fresh machine, running it, and printing the screen
that the run leaves. The listing, if asked for, is printed before. Failures are reported apart from the output,
and the exit code tells them from success. The log of the load and of the run is no part of what a command leaves
behind, wherever a logger may write it.
-/
namespace Chip8.Command

/-- What a command leaves behind. -/
structure Result where
  exit : Nat
  output : String
  /-- The report of a failure. Log records that are written to the same place are left out. -/
  errors : String
deriving DecidableEq, Repr

namespace Request

def config (q : Request) : Config := ⟨q.rate, q.limit, q.seed⟩

def keypad (q : Request) : Keypad :=
  match q.key with
  | some k => Keypad.held k
  | none => Keypad.untouched

/-- What is printed before the run. -/
def preface (q : Request) (image : Image) : String :=
  if q.listing then image.listing else ""

/-- The session of a request with its program loaded. -/
def prepare (q : Request) (image : Image) (entropy : Random.Key) : Outcome Session :=
  ((Machine.ofConfig q.config entropy).load image).map fun m => ⟨m, q.keypad⟩

end Request

/-- The result of a failure. -/
def failed (output : String) (failure : Failure) : Result := ⟨1, output, failure.report⟩

/-- The result of a trap. -/
def broken (output : String) : Result := ⟨101, output, ""⟩

/-- The result of a run. -/
def finished : Run.Progress → Result
  | .underway r => ⟨0, r.session.machine.screen.text, ""⟩
  | .stopped .limit r => ⟨0, r.session.machine.screen.text, ""⟩
  | .stopped (.fault f) r => failed r.session.machine.screen.text (.fault f)
  | .stopped (.trap _) r => broken r.session.machine.screen.text

/-- Puts text before the output. -/
def Result.after (preface : String) (r : Result) : Result := { r with output := preface ++ r.output }

/-- Carries out a request on the contents of its file. `ticks` is the schedule of the timer clock, as in
`Run.turns`. -/
def Request.play (q : Request) (contents : Except FileError (List UInt8)) (entropy : Random.Key)
    (ticks : Nat → Nat) (patience : Nat) : Result :=
  match contents with
  | .error e => failed "" (.file e)
  | .ok bytes =>
    let image : Image := ⟨bytes⟩
    match q.prepare image entropy with
    | .done session => (finished (session.run ticks patience)).after (q.preface image)
    | .faulted f _ => failed (q.preface image) (.fault f)
    | .trapped _ _ => broken (q.preface image)

/-- The answer to a question about the program itself, or the refusal of wrong arguments. -/
def Break.answer : Break → Result
  | version => ⟨0, "chip8-vm 0.1.0\n", ""⟩
  | help => ⟨0, usage, ""⟩
  | mistake m => ⟨2, "", "error: " ++ m.message ++ "\n\n" ++ usage⟩
where
  usage : String :=
    "Usage: chip8-vm [OPTIONS] --rom <ROM>\n\n" ++
    "Options:\n" ++
    "  -r, --rom <ROM>      Path to the program image to run\n" ++
    "  -i, --ips <IPS>      Instructions per second; 0 runs as fast as possible [default: 700]\n" ++
    "  -s, --steps <STEPS>  Stop after this many instructions\n" ++
    "      --seed <SEED>    Seed for the random number instruction\n" ++
    "  -k, --key <KEY>      Keypad key (0-15) held down for the whole run\n" ++
    "      --list           Print the program listing before running\n" ++
    "  -h, --help           Print help\n" ++
    "  -V, --version        Print version\n"

end Chip8.Command
