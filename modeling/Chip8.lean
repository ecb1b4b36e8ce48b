import Chip8.CallStack
import Chip8.Command.Arguments
import Chip8.Command.Basic
import Chip8.Command.Failure
import Chip8.Fault
import Chip8.Image.Assembly
import Chip8.Image.Basic
import Chip8.Image.Listing
import Chip8.Image.Reading
import Chip8.Instruction.Basic
import Chip8.Instruction.Code
import Chip8.Instruction.Mnemonic
import Chip8.Keypad
import Chip8.Log
import Chip8.Machine.Basic
import Chip8.Machine.Execute
import Chip8.Machine.Run
import Chip8.Machine.Step
import Chip8.Main
import Chip8.Memory.Basic
import Chip8.Memory.Dump
import Chip8.Memory.Font
import Chip8.Proofs.Atomicity
import Chip8.Proofs.ClockShutdown
import Chip8.Proofs.CommandLine
import Chip8.Proofs.ControlFlow
import Chip8.Proofs.Countdown
import Chip8.Proofs.Decoding
import Chip8.Proofs.Destination
import Chip8.Proofs.Disassembly
import Chip8.Proofs.Drawing
import Chip8.Proofs.DumpReading
import Chip8.Proofs.Effect
import Chip8.Proofs.Encoding
import Chip8.Proofs.Event
import Chip8.Proofs.Execution
import Chip8.Proofs.FaultStages
import Chip8.Proofs.FlagArithmetic
import Chip8.Proofs.Footprint
import Chip8.Proofs.Frame
import Chip8.Proofs.History
import Chip8.Proofs.ImageReading
import Chip8.Proofs.IndexRegister
import Chip8.Proofs.Interleaving
import Chip8.Proofs.Iteration
import Chip8.Proofs.KeyScript
import Chip8.Proofs.KeyWait
import Chip8.Proofs.Listing
import Chip8.Proofs.ListingReading
import Chip8.Proofs.LitPixels
import Chip8.Proofs.Loading
import Chip8.Proofs.MemoryHistory
import Chip8.Proofs.MnemonicReading
import Chip8.Proofs.Numerals
import Chip8.Proofs.Operation
import Chip8.Proofs.Overlay
import Chip8.Proofs.RandomStream
import Chip8.Proofs.Reachability
import Chip8.Proofs.Redrawing
import Chip8.Proofs.RegisterNames
import Chip8.Proofs.RegisterTransfer
import Chip8.Proofs.RegisterWrap
import Chip8.Proofs.Rounds
import Chip8.Proofs.RunLog
import Chip8.Proofs.Running
import Chip8.Proofs.ScreenReading
import Chip8.Proofs.Setting
import Chip8.Proofs.Stepping
import Chip8.Proofs.StraightLine
import Chip8.Proofs.Subroutine
import Chip8.Proofs.Surroundings
import Chip8.Proofs.Tape
import Chip8.Proofs.TickFreedom
import Chip8.Proofs.TimerAccess
import Chip8.Proofs.Tones
import Chip8.Proofs.Trace
import Chip8.Proofs.TrapFreedom
import Chip8.Proofs.UnreadMemory
import Chip8.Random.ChaCha
import Chip8.Random.Source
import Chip8.Registers.Arithmetic
import Chip8.Registers.Basic
import Chip8.Screen.Basic
import Chip8.Screen.Sprite
import Chip8.Screen.Text
import Chip8.Text.Decimal
import Chip8.Text.Hex
import Chip8.Text.Lines
import Chip8.Timers.Basic
import Chip8.Timers.Clock
import Chip8.Word
