import Chip8.Keypad
import Chip8.Random
import Chip8.Settings
import Chip8.Snapshot
import Chip8.Timers

/-!
# The machine

A machine is one value; whatever happens to it gives the next one.

* `Machine` — the state, visible or not, and the settings that act while it runs.
* `Machine.snapshot` — the part of the state that a host can see.
* `Machine.crash` — the machine after a fault, and the crash that the host is told.
* `Machine.cyclesPerFrame` — how many instructions belong to one tick of the timers.
-/

namespace Chip8

/-- The whole state of a machine. -/
structure Machine where
  status : Status
  screen : Screen
  stack : CallStack
  memory : Memory
  /-- The address of the next instruction. -/
  pc : UInt16
  /-- The index register, which points to the data of block and sprite instructions. -/
  index : UInt16
  registers : Registers
  timers : Timers
  keypad : Keypad
  /-- The number of cycles attempted. -/
  cycles : Nat
  random : Random
  /-- Where the font was placed. -/
  fontStart : UInt16
  /-- Where the program was placed. -/
  programStart : UInt16
  /-- Instructions per second. -/
  speed : UInt64
  /-- The meaning of disputed instructions. -/
  dialect : Dialect
deriving DecidableEq

namespace Machine

/-- The part of the state that a host can see. -/
def snapshot (machine : Machine) : Snapshot where
  status := machine.status
  screen := machine.screen
  stack := machine.stack
  memory := machine.memory
  pc := machine.pc
  index := machine.index
  registers := machine.registers
  delay := machine.timers.delay
  sound := machine.timers.sound
  cycles := machine.cycles

/-- The machine after a fault: nothing but its status is new. -/
def halt (machine : Machine) : Machine :=
  { machine with status := .crashed }

/-- The crash that the host is told when a fault occurs at the next instruction. -/
def crash (machine : Machine) (word : Option UInt16) (fault : Fault) : Crash where
  fault := fault
  address := machine.pc
  word := word
  dump := machine.halt.snapshot

/-- The number of instructions that belong to one tick of the timers; never zero. -/
def cyclesPerFrame (machine : Machine) : UInt64 :=
  max (machine.speed / ticksPerSecond) 1

def setSpeed (machine : Machine) (speed : UInt64) : Machine :=
  { machine with speed }

def tick (machine : Machine) : Machine :=
  { machine with timers := machine.timers.tick }

/-- Presses or releases a key; the machine stays as it is if there is no such key. -/
def setKey (machine : Machine) (key : UInt8) (down : Bool) : Except Fault Machine :=
  (machine.keypad.set key down).map fun keypad => { machine with keypad }

end Machine
end Chip8
