import Chip8.Instruction.Basic
import Chip8.Machine.Basic
import Chip8.Registers.Arithmetic
import Chip8.Screen.Sprite

/-!
# Executing an instruction

What each instruction does to a session. `here` is the address that the instruction was fetched from; the
program counter has already moved past it. Every address is checked before anything is written.
-/
namespace Chip8.Session

def setPc (s : Session) (pc : Address) : Session :=
  { s with machine := { s.machine with pc := pc } }

def setRegisters (s : Session) (r : Registers) : Session :=
  { s with machine := { s.machine with registers := r } }

def setTimers (s : Session) (t : Timers) : Session :=
  { s with machine := { s.machine with timers := t } }

/-- Moves the program counter to the sum of an address and an offset. -/
def jumpBy (s : Session) (start : Address) (offset : Nat) : Outcome Session :=
  match start.plus? offset with
  | some pc => .done (s.setPc pc)
  | none => .trapped .addressOverflow s

/-- Moves the program counter past the next instruction if a condition holds. -/
def skipIf (s : Session) (condition : Bool) : Outcome Session :=
  if condition then s.jumpBy s.machine.pc 2 else .done s

/-- Asks the keypad which key is down. -/
def query (s : Session) : Option UInt8 × Session :=
  let (key, keypad) := s.keypad.query
  (key, { s with keypad := keypad })

/-- Writes bytes at the address in the index register. -/
def store (s : Session) (values : List UInt8) (here : Address) : Outcome Session :=
  match s.machine.memory.write s.machine.registers.index.toNat values with
  | .ok memory => .done { s with machine := { s.machine with memory := memory } }
  | .error e => .faulted (e.fault here) s

/-- The session after an instruction. -/
def execute (s : Session) (i : Instruction) (here : Address) : Outcome Session :=
  let m := s.machine
  let r := m.registers
  match i with
  | .clearScreen => .done { s with machine := { m with screen := Screen.blank } }
  | .ret =>
    match m.stack.pop? with
    | some (pc, stack) => .done { s with machine := { m with pc := pc, stack := stack } }
    | none => .faulted (.stackUnderflow here) s
  | .jump nnn => .done (s.setPc nnn)
  | .call nnn => .done { s with machine := { m with pc := nnn, stack := m.stack.push m.pc } }
  | .skipIfEqual x nn => s.skipIf (r.get x == nn)
  | .skipIfNotEqual x nn => s.skipIf (r.get x != nn)
  | .skipIfSame x y => s.skipIf (r.get x == r.get y)
  | .load x nn => .done (s.setRegisters (r.set x nn))
  | .add x nn => .done (s.setRegisters (r.addImmediate x nn))
  | .move x y => .done (s.setRegisters (r.move x y))
  | .or x y => .done (s.setRegisters (r.or x y))
  | .and x y => .done (s.setRegisters (r.and x y))
  | .xor x y => .done (s.setRegisters (r.xor x y))
  | .addRegister x y => .done (s.setRegisters (r.add x y))
  | .sub x y => .done (s.setRegisters (r.sub x y))
  | .shiftRight x => .done (s.setRegisters (r.shiftRight x))
  | .subReversed x y => .done (s.setRegisters (r.subReversed x y))
  | .shiftLeft x => .done (s.setRegisters (r.shiftLeft x))
  | .skipIfDifferent x y => s.skipIf (r.get x != r.get y)
  | .loadIndex nnn => .done (s.setRegisters (r.setIndex nnn))
  | .jumpOffset nnn => s.jumpBy nnn (r.get 0).toNat
  | .random x nn =>
    let (value, random) := m.random.next
    .done { s with machine := { m with random := random, registers := r.set x (value &&& nn) } }
  | .draw x y n =>
    match m.memory.read r.index.toNat n.toNat with
    | .ok sprite =>
      let drawing := m.screen.draw (r.get x) (r.get y) sprite
      .done { s with machine := { m with
        screen := drawing.screen
        registers := r.setFlag drawing.collision.toUInt8 } }
    | .error e => .faulted (e.fault here) s
  | .skipIfKey x =>
    let (key, s) := s.query
    s.skipIf (key == some (r.get x))
  | .skipIfNotKey x =>
    let (key, s) := s.query
    s.skipIf (key != some (r.get x))
  | .readDelay x => .done (s.setRegisters (r.set x m.timers.delay))
  | .waitKey x =>
    match s.query with
    | (some key, s) => .done (s.setRegisters (r.set x key))
    | (none, s) => .done (s.setPc here)
  | .setDelay x => .done (s.setTimers { m.timers with delay := r.get x })
  | .setSound x => .done (s.setTimers { m.timers with sound := r.get x })
  | .addIndex x => .done (s.setRegisters (r.addIndex x))
  | .loadGlyph x =>
    match r.glyphAddress? x with
    | some glyph => .done (s.setRegisters (r.setIndex glyph))
    | none => .trapped .addressOverflow s
  | .storeDecimal x => s.store (r.decimal x) here
  | .storeRegisters x =>
    match r.upTo? x with
    | some values => s.store values here
    | none => .trapped .registerRange s
  | .loadRegisters x =>
    match m.memory.read r.index.toNat (x.toNat + 1) with
    | .ok values => .done (s.setRegisters (r.setAll 0 values))
    | .error e => .faulted (e.fault here) s

end Chip8.Session
