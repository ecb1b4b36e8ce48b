import Chip8.Text.Decimal

/-!
# Arguments

The arguments of the command line and what they ask for. Arguments are read from left to right and the
first mistake decides; the questions for version and help are answered when they are met. An option that
takes a value has it in the next argument, which must not look like an option, or joined: after an equals sign in
the long form, directly or after an equals sign in the short form. No option may be given twice.
-/
namespace Chip8.Command

/-- What a run of a program is asked to be. -/
structure Request where
  rom : String
  rate : Nat
  limit : Option Nat
  seed : Option UInt64
  key : Option UInt8
  listing : Bool
deriving DecidableEq, Repr

/-- The options that take a value. -/
inductive Opt where
  | rom
  | rate
  | limit
  | seed
  | key
deriving DecidableEq, Repr

/-- The options that take none. -/
inductive Switch where
  | listing
  | version
  | help
deriving DecidableEq, Repr

inductive Mistake where
  | unknown (argument : String)
  | repeated (name : String)
  | missingValue (name : String)
  | surplusValue (argument : String)
  | badValue (name value : String)
  | missingRom
deriving DecidableEq, Repr

def Mistake.message : Mistake → String
  | unknown argument => "unexpected argument " ++ argument
  | repeated name => name ++ " cannot be used more than once"
  | missingValue name => name ++ " needs a value"
  | surplusValue name => name ++ " takes no value"
  | badValue name value => "invalid value " ++ value ++ " for " ++ name
  | missingRom => "--rom is required"

def Opt.name : Opt → String
  | rom => "--rom"
  | rate => "--ips"
  | limit => "--steps"
  | seed => "--seed"
  | key => "--key"

def Opt.ofLong? (name : List Char) : Option Opt :=
  [rom, rate, limit, seed, key].find? fun o => o.name.toList == '-' :: '-' :: name

def Opt.ofShort? : Char → Option Opt
  | 'r' => some rom
  | 'i' => some rate
  | 's' => some limit
  | 'k' => some key
  | _ => none

def Switch.name : Switch → String
  | listing => "--list"
  | version => "--version"
  | help => "--help"

def Switch.ofLong? (name : List Char) : Option Switch :=
  [listing, version, help].find? fun o => o.name.toList == '-' :: '-' :: name

def Switch.ofShort? : Char → Option Switch
  | 'V' => some version
  | 'h' => some help
  | _ => none

/-- The options given so far. -/
structure Given where
  rom : Option String
  rate : Option Nat
  limit : Option Nat
  seed : Option UInt64
  key : Option UInt8
  listing : Bool
deriving DecidableEq, Repr

def Given.nothing : Given := ⟨none, none, none, none, none, false⟩

/-- Why reading the arguments ends before their end. -/
inductive Break where
  | version
  | help
  | mistake (m : Mistake)
deriving DecidableEq, Repr

namespace Given

/-- A number below a bound, read with or without a sign. -/
def bounded? (bound : Nat) (value : List Char) : Option Nat :=
  match Text.Decimal.readInt? value with
  | some n => if 0 ≤ n ∧ n < bound then some n.toNat else none
  | none => none

/-- A number of 64 bits, read without a minus sign. -/
def wide? (value : List Char) : Option Nat :=
  match Text.Decimal.readNat? value with
  | some n => if n < 18446744073709551616 then some n else none
  | none => none

def isGiven (g : Given) : Opt → Bool
  | .rom => g.rom.isSome
  | .rate => g.rate.isSome
  | .limit => g.limit.isSome
  | .seed => g.seed.isSome
  | .key => g.key.isSome

/-- Sets an option to a value, if it is one of the option's. -/
def set? (g : Given) (o : Opt) (value : List Char) : Option Given :=
  match o with
  | .rom => if value.isEmpty then none else some { g with rom := some (String.ofList value) }
  | .rate => (bounded? 4294967296 value).map fun n => { g with rate := some n }
  | .limit => (wide? value).map fun n => { g with limit := some n }
  | .seed => (wide? value).map fun n => { g with seed := some (UInt64.ofNat n) }
  | .key => (bounded? 16 value).map fun n => { g with key := some (UInt8.ofNat n) }

/-- Gives an option its value. -/
def give (g : Given) (o : Opt) (value : List Char) : Except Break Given :=
  if g.isGiven o then .error (.mistake (.repeated o.name))
  else
    match g.set? o value with
    | some next => .ok next
    | none => .error (.mistake (.badValue o.name (String.ofList value)))

/-- Turns a switch on. -/
def switch (g : Given) : Switch → Except Break Given
  | .version => .error .version
  | .help => .error .help
  | .listing =>
    if g.listing then .error (.mistake (.repeated Switch.listing.name))
    else .ok { g with listing := true }

end Given

/-- What reading one argument leads to: the options given so far, and the option whose value is to come in
the next argument. -/
abbrev Reading := Given × Option Opt

/-- Reads the name and the joined value of a long argument. -/
def readLong (g : Given) (name : List Char) (joined : Option (List Char)) : Except Break Reading :=
  match Opt.ofLong? name, Switch.ofLong? name, joined with
  | some o, _, some value => (g.give o value).map (·, none)
  | some o, _, none => .ok (g, some o)
  | none, some s, none => (g.switch s).map (·, none)
  | none, some s, some _ => .error (.mistake (.surplusValue s.name))
  | none, none, _ => .error (.mistake (.unknown (String.ofList name)))

/-- Reads the letters of a short argument. A letter that takes a value takes the rest. -/
def readShort (g : Given) : List Char → Except Break Reading
  | [] => .ok (g, none)
  | letter :: rest =>
    match Opt.ofShort? letter, Switch.ofShort? letter with
    | some o, _ =>
      match rest with
      | [] => .ok (g, some o)
      | '=' :: value => (g.give o value).map (·, none)
      | value => (g.give o value).map (·, none)
    | none, some s =>
      match g.switch s with
      | .ok next => readShort next rest
      | .error b => .error b
    | none, none => .error (.mistake (.unknown (String.singleton letter)))

/-- Whether an argument can only be an option. -/
def looksLikeOption : List Char → Bool
  | '-' :: _ :: _ => true
  | _ => false

/-- Reads an argument that is not the value of the one before. -/
def readFresh (g : Given) : List Char → Except Break Reading
  | '-' :: '-' :: long =>
    match long.span (· != '=') with
    | (name, []) => readLong g name none
    | (name, _ :: value) => readLong g name (some value)
  | '-' :: letter :: letters => readShort g (letter :: letters)
  | argument => .error (.mistake (.unknown (String.ofList argument)))

/-- Reads arguments. After two dashes alone nothing may follow. -/
def readAll : Reading → List (List Char) → Except Break Given
  | (g, none), [] => .ok g
  | (_, some o), [] => .error (.mistake (.missingValue o.name))
  | (g, some o), argument :: rest =>
    if looksLikeOption argument then .error (.mistake (.missingValue o.name))
    else
      match g.give o argument with
      | .ok next => readAll (next, none) rest
      | .error b => .error b
  | (g, none), argument :: rest =>
    if argument = ['-', '-'] then
      match rest with
      | [] => .ok g
      | surplus :: _ => .error (.mistake (.unknown (String.ofList surplus)))
    else
      match readFresh g argument with
      | .ok next => readAll next rest
      | .error b => .error b

/-- The request that arguments make. A program has to be named; its rate is 700 instructions per second
unless given. -/
def Request.ofArguments (arguments : List String) : Except Break Request :=
  match readAll (Given.nothing, none) (arguments.map String.toList) with
  | .error b => .error b
  | .ok g =>
    match g.rom with
    | none => .error (.mistake .missingRom)
    | some rom => .ok ⟨rom, g.rate.getD 700, g.limit, g.seed, g.key, g.listing⟩

end Chip8.Command
