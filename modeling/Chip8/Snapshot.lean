import Chip8.CallStack
import Chip8.Memory
import Chip8.Registers
import Chip8.Screen

/-!
# Snapshots

A snapshot is everything a host can see of a machine: its status, screen, memory, stack, registers,
timers and the number of cycles.  A crash is an incident together with the snapshot taken right
after it.
-/

namespace Chip8

/-- How far a machine has come. -/
inductive Status where
  /-- The program is in memory and no cycle has been attempted. -/
  | programLoaded
  /-- Cycles are being carried out. -/
  | running
  /-- The machine stays at an instruction until a key is pressed. -/
  | waitingForKeypress
  /-- A fault has occurred, and nothing will be carried out any more. -/
  | crashed
deriving DecidableEq, Repr

/-- Everything a host can see of a machine. -/
structure Snapshot where
  status : Status
  screen : Screen
  stack : CallStack
  memory : Memory
  /-- The address of the next instruction. -/
  pc : UInt16
  index : UInt16
  registers : Registers
  delay : UInt8
  sound : UInt8
  /-- The number of cycles attempted. -/
  cycles : Nat
deriving DecidableEq

/-- An incident and what the machine looked like right after it. -/
structure Crash extends Incident where
  dump : Snapshot
deriving DecidableEq

end Chip8
