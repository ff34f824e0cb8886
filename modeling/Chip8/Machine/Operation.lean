import Chip8.Machine.Boot
import Chip8.Machine.Cycle

/-!
# Host operations

What a host can do to a machine that has started, as data, so that a whole history is a list.

* `Operation.apply` — one operation, with the answer that the host gets.
* `Machine.after` — the machine after a list of operations.
* `Machine.Reachable` — the machines that some program, settings and history lead to.
-/

namespace Chip8

/-- What a host can do to a machine that has started. -/
inductive Operation where
  | cycle
  | frame
  | tick
  | key (key : UInt8) (down : Bool)
  /-- Set the number of instructions per second. -/
  | speed (speed : UInt64)
deriving DecidableEq, Repr

/-- The answer to a host operation. -/
inductive Reply where
  /-- Whether the screen may be new, after a cycle or a frame. -/
  | updated (updated : Bool)
  /-- A cycle met a fault, by itself or in a frame. -/
  | crashed (crash : Crash)
  | done
  /-- The operation was refused. -/
  | refused (fault : Fault)
deriving DecidableEq

/-- What comes of a host operation. -/
structure Step where
  machine : Machine
  reply : Reply
  records : List Log.Record

/-- The step of a cycle or a frame. -/
def Outcome.toStep (outcome : Outcome Bool) : Step where
  machine := outcome.machine
  reply :=
    match outcome.result with
    | .ok updated => .updated updated
    | .error crash => .crashed crash
  records := outcome.records

/-- Carries out a host operation. -/
def Operation.apply (machine : Machine) : Operation → Step
  | cycle => machine.cycle.toStep
  | frame => machine.frame.toStep
  | tick => ⟨machine.tick, .done, []⟩
  | key number down =>
      match machine.setKey number down with
      | .ok next => ⟨next, .done, []⟩
      | .error fault => ⟨machine, .refused fault, []⟩
  | speed hertz => ⟨machine.setSpeed hertz, .done, []⟩

namespace Machine

/-- The machine after a list of host operations. -/
def after (machine : Machine) : List Operation → Machine
  | [] => machine
  | operation :: rest => (operation.apply machine).machine.after rest

/-- A machine that some program, settings and history lead to. -/
def Reachable (machine : Machine) : Prop :=
  ∃ program settings hostKey start operations,
    (boot program settings hostKey).result = .ok start ∧ start.after operations = machine

end Machine
end Chip8
