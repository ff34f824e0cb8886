import Chip8.InPlace.Cycle
import Chip8.Machine.Operation
import Chip8.Proofs.Instruction.Number
import Chip8.Proofs.Machine.Boot
import Chip8.Proofs.Machine.Calls
import Chip8.Proofs.Machine.Cycle
import Chip8.Proofs.Machine.Fault
import Chip8.Proofs.Machine.History
import Chip8.Proofs.Machine.Sound
import Chip8.Settings.Load
import Chip8.Proofs.InPlace.Moves
import Chip8.Proofs.InPlace.Refusal
import Chip8.Proofs.Screen.Mask
import Chip8.Proofs.InPlace.Painting
import Chip8.Proofs.InPlace.Agreement
import Chip8.Proofs.InPlace.Atomic
import Chip8.Proofs.InPlace.Range
import Chip8.Proofs.Screen.Covering
import Chip8.Proofs.InPlace.Drawing
import Chip8.Proofs.Machine.Start
import Chip8.Proofs.Json.Syntax
import Chip8.Proofs.Json.Text
import Chip8.Proofs.Json.Number
import Chip8.Proofs.Json.Spaced
import Chip8.Proofs.Json.Scalar
import Chip8.Proofs.Json.Skip
import Chip8.Proofs.Json.Record
import Chip8.Proofs.Json.Cut
import Chip8.Proofs.Settings.Load
import Chip8.Proofs.Settings.Document
import Chip8.Proofs.Machine.Frame
import Chip8.Proofs.Machine.Rest
import Chip8.Proofs.Machine.Waiting
import Chip8.Proofs.Machine.Life
import Chip8.Proofs.Machine.Footprint
import Chip8.Proofs.Machine.Stream
import Chip8.Proofs.Machine.Countdown
import Chip8.Proofs.Machine.Interleaving
import Chip8.Proofs.Screen.Overhang
import Chip8.Proofs.Machine.Dialect
import Chip8.Proofs.Instruction.Template
import Chip8.Proofs.Machine.Assembly
import Chip8.Proofs.Machine.Records
import Chip8.Proofs.Machine.Redraw
import Chip8.Proofs.Machine.Keys
import Chip8.Proofs.Machine.Arithmetic
import Chip8.Proofs.Machine.Successor
import Chip8.Proofs.Machine.Blocks
import Chip8.Proofs.Screen.Overprint
import Chip8.Proofs.InPlace.Overprint
import Chip8.Proofs.Json.Numeral
import Chip8.Proofs.Settings.Integers
import Chip8.Proofs.InPlace.Spans
import Chip8.Proofs.InPlace.Window
import Chip8.Proofs.Machine.Glyphs
import Chip8.Proofs.Message.Fault
import Chip8.Proofs.InPlace.Stack
