import Chip8.Command.Basic
import Chip8.Timers.Clock

/-!
# The program

Reads the file that the arguments name, runs it in real time with the timer clock beside it, and prints
what the command leaves behind. Everything that is decided is decided by `Chip8.Command`.
-/
namespace Chip8.Program

open Command

def nanosPerSecond : Nat := 1000000000

/-- The number of a system error. Some calls give it negated. -/
def systemCode (code : UInt32) : Nat :=
  if code < 0x80000000 then code.toNat else (0 - code).toNat

/-- The system's error as the report shows it. -/
def fileError : IO.Error → FileError
  | .noFileOrDirectory .. => .notFound
  | .permissionDenied _ code details => .ofCode (systemCode code) details
  | .inappropriateType _ code details => .ofCode (systemCode code) details
  | .invalidArgument _ code details => .ofCode (systemCode code) details
  | .resourceExhausted _ code details => .ofCode (systemCode code) details
  | .otherError code details => .ofCode (systemCode code) details
  | e => .ofCode 0 (toString e)

def readContents (path : String) : IO (Except FileError (List UInt8)) := do
  try
    let bytes ← IO.FS.readBinFile path
    return .ok bytes.toList
  catch e =>
    return .error (fileError e)

def freshKey : IO Random.Key := do
  let bytes ← IO.getRandomBytes 32
  return Vector.ofFn fun k : Fin 8 =>
    (List.range 4).foldl (fun w j => w * 256 + (bytes.get! (4 * k.val + j)).toUInt32) 0

/-- Waits until so many nanoseconds have passed since `since`. -/
def waitUntil (since passed : Nat) : IO Unit := do
  let now := (← IO.monoNanosNow) - since
  if now < passed then
    IO.sleep (UInt32.ofNat ((passed - now + 999999) / 1000000))

/-- Takes turns at the rate of the configuration, ticking the timers for the time that has passed. -/
partial def inRealTime (since ticked : Nat) (r : Run) : IO Run.Progress := do
  let due := ((← IO.monoNanosNow) - since) * Clock.frequency / nanosPerSecond
  match (r.tick (due - ticked)).turn with
  | .stopped why last => return .stopped why last
  | .underway next =>
    let rate := next.session.machine.config.rate
    if rate != 0 then
      waitUntil since (next.steps * nanosPerSecond / rate)
    inRealTime since due { next with log := #[] }

def play (q : Request) : IO Result := do
  match ← readContents q.rom with
  | .error e => return failed "" (.file e)
  | .ok bytes =>
    let image : Image := ⟨bytes⟩
    IO.print (q.preface image)
    match q.prepare image (← freshKey) with
    | .done session => return finished (← inRealTime (← IO.monoNanosNow) 0 session.start)
    | .faulted f _ => return failed "" (.fault f)
    | .trapped _ _ => return broken ""

end Chip8.Program

open Chip8 in
def main (arguments : List String) : IO UInt32 := do
  let result ←
    match Command.Request.ofArguments arguments with
    | .ok q => Program.play q
    | .error b => pure b.answer
  IO.print result.output
  IO.eprint result.errors
  return UInt32.ofNat result.exit
