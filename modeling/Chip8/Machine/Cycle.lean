import Chip8.Instruction.Encoding
import Chip8.Machine.Execute

/-!
# Cycles and frames

A cycle fetches the word at the program counter, decodes it and carries it out.  A frame is as many
cycles as belong to one tick of the timers, and then the tick.

* `Machine.cycle` — one cycle.  A fault leaves the machine as it was, apart from its status and the
  number of cycles; a machine that has crashed refuses and stays as it is.
* `Machine.run` — up to a number of cycles, ending at the first fault.
* `Machine.frame` — one frame; a frame that meets a fault does not tick.
-/

namespace Chip8

/-- What comes of asking a machine to work: the next machine, the answer, and what it told. -/
structure Outcome (α : Type) where
  machine : Machine
  /-- The answer, or the crash that stands in its place. -/
  result : Except Crash α
  /-- The records told meanwhile, oldest first. -/
  records : List Log.Record

namespace Machine

/-- The outcome of a fault at the next instruction, after some records. -/
def fail {α : Type} (machine : Machine) (word : Option UInt16) (fault : Fault)
    (records : List Log.Record) : Outcome α where
  machine := machine.halt
  result := .error (machine.crash word fault)
  records := records ++ [.crashed machine.pc fault]

/-- Counts a cycle; the first one starts the machine. -/
def beginCycle (machine : Machine) : Machine :=
  { machine with
    cycles := machine.cycles + 1
    status := if machine.status = .programLoaded then .running else machine.status }

/-- Carries out the instruction of a word that has been fetched. -/
def perform (machine : Machine) (word : UInt16) : Outcome Bool :=
  match Instruction.decode word with
  | none => machine.fail (some word) (.unknownInstruction word) []
  | some instruction =>
      let decoded := Log.Record.decoded machine.pc word instruction
      match machine.execute instruction with
      | .error fault => machine.fail (some word) fault [decoded]
      | .ok next => ⟨next, .ok instruction.updatesScreen, decoded :: machine.notes instruction⟩

/-- One cycle; the answer is whether the screen may be new. -/
def cycle (machine : Machine) : Outcome Bool :=
  if machine.status = .crashed then machine.fail none .halted []
  else
    let begun := machine.beginCycle
    match begun.memory.readWord begun.pc.toNat with
    | .error fault => begun.fail none fault []
    | .ok word => begun.perform word

/-! ## Many cycles -/

/-- How far a run of cycles has come. -/
structure Run where
  /-- The machine after the cycles so far. -/
  machine : Machine
  /-- The number of cycles that succeeded. -/
  ran : Nat
  /-- The number of cycles after which the screen may be new. -/
  updates : Nat
  /-- The crash that ended the run, if one did. -/
  crash : Option Crash
  records : Array Log.Record

/-- Goes on with a run for up to a number of cycles, ending at the first fault. -/
def resume : Nat → Run → Run
  | 0, run => run
  | count + 1, run =>
      let outcome := run.machine.cycle
      let records := run.records ++ outcome.records
      match outcome.result with
      | .ok updated =>
          resume count ⟨outcome.machine, run.ran + 1,
            if updated then run.updates + 1 else run.updates, none, records⟩
      | .error crash => ⟨outcome.machine, run.ran, run.updates, some crash, records⟩

/-- Up to a number of cycles, ending at the first fault. -/
def run (machine : Machine) (count : Nat) : Run :=
  resume count ⟨machine, 0, 0, none, #[]⟩

/-- One frame; the answer is whether the screen may be new. -/
def frame (machine : Machine) : Outcome Bool :=
  let run := machine.run machine.cyclesPerFrame.toNat
  match run.crash with
  | none => ⟨run.machine.tick, .ok (0 < run.updates), run.records.toList⟩
  | some crash => ⟨run.machine, .error crash, run.records.toList⟩

end Machine
end Chip8
