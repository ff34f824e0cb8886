import Chip8.Font
import Chip8.Log
import Chip8.Machine
import Chip8.Program

/-!
# Starting a machine

A machine starts with the font and the program in memory.  The font comes first and has to end at
or before the program; the program has to start behind the reserved region and to end in memory.

* `Machine.powerOn` — the machine before anything is placed.
* `Machine.placeFont`, `Machine.placeProgram` — the two steps, each with what it refuses.
* `Machine.boot` — both steps; on a refusal the crash shows what was placed until then.
-/

namespace Chip8

/-- The end of the region in which no program may start. -/
abbrev reservedEnd : Nat := 0x200

/-- What comes of starting a machine: the machine or a crash, and what was told. -/
structure Start where
  /-- The machine, or the crash that stands in its place. -/
  result : Except Crash Machine
  records : List Log.Record

namespace Machine

/-- The machine before anything is placed; without a seed it draws on the host's key. -/
def powerOn (settings : Settings) (hostKey : Keystream.Key) : Machine where
  status := .programLoaded
  screen := .blank
  stack := .empty
  memory := .zero
  pc := settings.programStart
  index := 0
  registers := .zero
  timers := .stopped
  keypad := .released
  cycles := 0
  random :=
    match settings.seed with
    | some seed => .ofSeed seed
    | none => .ofKey hostKey
  fontStart := settings.fontStart
  programStart := settings.programStart
  speed := settings.speed
  dialect := settings.dialect

/-- Places the font, which has to end at or before the start of the program. -/
def placeFont (machine : Machine) : Except Fault Machine := do
  let fontEnd := machine.fontStart.toNat + Font.bytes.length
  if machine.programStart.toNat < fontEnd then
    throw (.fontOutOfBounds fontEnd)
  let memory ← machine.memory.write machine.fontStart.toNat Font.bytes
  return { machine with memory }

/-- Places the program, which has to start behind the reserved region and to end in memory. -/
def placeProgram (machine : Machine) (program : Program) : Except Fault Machine := do
  let start := machine.programStart.toNat
  if start < reservedEnd then
    throw (.programInReservedRegion start)
  let capacity := memorySize - start
  if capacity < program.size then
    throw (.programTooLarge program.size capacity)
  let memory ← machine.memory.write start program.bytes
  return { machine with memory }

/-- The outcome of a fault while a machine is started, after some records. -/
def failStart (machine : Machine) (fault : Fault) (records : List Log.Record) : Start where
  result := .error (machine.crash none fault)
  records := records ++ [.crashed machine.pc fault]

/-- Starts a machine with a program. -/
def boot (program : Program) (settings : Settings) (hostKey : Keystream.Key) : Start :=
  let bare := powerOn settings hostKey
  let starting : Log.Record :=
    .starting settings.programStart settings.fontStart settings.dialect
  match bare.placeFont with
  | .error fault => bare.failStart fault [starting]
  | .ok withFont =>
      let fontLoaded : Log.Record := .fontLoaded Font.bytes.length settings.fontStart
      match withFont.placeProgram program with
      | .error fault => withFont.failStart fault [starting, fontLoaded]
      | .ok ready =>
          ⟨.ok ready,
            [starting, fontLoaded, .programLoaded program.size settings.programStart]⟩

end Machine
end Chip8
