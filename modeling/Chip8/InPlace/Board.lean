import Chip8.Machine.Execute
import Chip8.Random.Supply

/-!
# Work on a board

A board is a machine that is changed in place, with one word for each pixel.  Work on a board goes
from step to step; when a step is refused, the board stays as the steps before it left it.  Every
sum, difference, narrowing and index of a step is checked, and a step that is not exact or not in
range is a slip.

* `Board` — the state that is changed in place; `Machine.board` is the board of a machine.
* `Slip`, `Ending`, `Work` — how work goes wrong, how it ends, and work itself.
* `sum`, `difference`, `narrow`, `entry` — the checked steps; all other steps are made of them.
* `paint` — a sprite drawn pixel by pixel.
-/

namespace Chip8

/-- A machine that is changed in place. -/
structure Board where
  status : Status
  /-- The words of all pixels, row after row from the top. -/
  pixels : Array UInt32
  stack : CallStack
  memory : Memory
  pc : UInt16
  index : UInt16
  registers : Registers
  timers : Timers
  keypad : Keypad
  cycles : Nat
  random : Supply
  fontStart : UInt16
  programStart : UInt16
  speed : UInt64
  dialect : Dialect
deriving DecidableEq

def Machine.board (machine : Machine) : Board where
  status := machine.status
  pixels := machine.screen.words.toArray
  stack := machine.stack
  memory := machine.memory
  pc := machine.pc
  index := machine.index
  registers := machine.registers
  timers := machine.timers
  keypad := machine.keypad
  cycles := machine.cycles
  random := machine.random.supply
  fontStart := machine.fontStart
  programStart := machine.programStart
  speed := machine.speed
  dialect := machine.dialect

namespace Board

/-- Whether the pixels of a row are on, from the left; a pixel is on unless its word is zero. -/
def lights (board : Board) (row : Nat) : List Bool :=
  (List.range screenWidth).map fun column =>
    board.pixels[row * screenWidth + column]?.getD 0 != Screen.word false

theorem length_lights (board : Board) (row : Nat) : (board.lights row).length = screenWidth := by
  simp [lights]

/-- The screen that the words show. -/
def screen (board : Board) : Screen where
  rows := Vector.ofFn fun row =>
    (BitVec.ofBoolListBE (board.lights row.val)).cast (board.length_lights row.val)

def snapshot (board : Board) : Snapshot where
  status := board.status
  screen := board.screen
  stack := board.stack
  memory := board.memory
  pc := board.pc
  index := board.index
  registers := board.registers
  delay := board.timers.delay
  sound := board.timers.sound
  cycles := board.cycles

end Board

/-- The ways in which a step can fail to be exact or in range. -/
inductive Slip where
  /-- A sum or a shift is too large. -/
  | overflow
  | underflow
  /-- A number does not fit the word in which it is stored. -/
  | truncation
  /-- An index or a range does not lie in its array. -/
  | outOfRange
  /-- A range is filled from one of another length. -/
  | lengthMismatch
deriving DecidableEq, Repr

/-- How a piece of work ends. -/
inductive Ending (ε α : Type) where
  | done (value : α)
  | refused (cause : ε)
  | slipped (slip : Slip)

/-- Work on a board; the board is left in some state however the work ends. -/
structure Work (ε α : Type) where
  /-- The ending of the work on a board, and the board afterwards. -/
  on : Board → Ending ε α × Board

namespace Work

variable {ε α β : Type}

instance : Monad (Work ε) where
  pure value := ⟨fun board => (.done value, board)⟩
  bind work next := ⟨fun board =>
    match work.on board with
    | (.done value, later) => (next value).on later
    | (.refused cause, later) => (.refused cause, later)
    | (.slipped slip, later) => (.slipped slip, later)⟩

def look : Work ε Board := ⟨fun board => (.done board, board)⟩

def alter (change : Board → Board) : Work ε Unit := ⟨fun board => (.done (), change board)⟩

def refuse (cause : ε) : Work ε α := ⟨fun board => (.refused cause, board)⟩

/-- Goes on only if a condition holds, and is refused otherwise. -/
def allow (condition : Prop) [Decidable condition] (cause : ε) : Work ε Unit :=
  ⟨fun board => if condition then (.done (), board) else (.refused cause, board)⟩

/-- Slips unless a condition holds. -/
def demand (condition : Prop) [Decidable condition] (slip : Slip) : Work ε Unit :=
  ⟨fun board => if condition then (.done (), board) else (.slipped slip, board)⟩

/-- The entry that an index leads to. -/
def entry (found : Option α) : Work ε α :=
  match found with
  | some value => ⟨fun board => (.done value, board)⟩
  | none => ⟨fun board => (.slipped .outOfRange, board)⟩

def sum (first second : UInt16) : Work ε UInt16 := do
  demand (first.toNat + second.toNat < 0x10000) .overflow
  return first + second

def difference (first second : UInt16) : Work ε UInt16 := do
  demand (second.toNat ≤ first.toNat) .underflow
  return first - second

def narrow (number : Nat) : Work ε UInt16 := do
  demand (number < 0x10000) .truncation
  return UInt16.ofNat number

/-! ## The program counter and the stack -/

def leap (address : UInt16) : Work ε Unit :=
  alter fun board => { board with pc := address }

/-- Goes on by one instruction. -/
def advance : Work ε Unit := do
  leap (← sum (← look).pc 2)

/-- Goes back by one instruction. -/
def retreat : Work ε Unit := do
  leap (← difference (← look).pc 2)

/-- Keeps a return address: the entry is written before the pointer moves. -/
def push (address : UInt16) : Work Fault Unit := do
  let stack := (← look).stack
  allow (stack.pointer < stackSize) .stackFull
  demand (stack.pointer < stackSize) .outOfRange
  alter fun board =>
    { board with stack := ⟨stack.entries.setIfInBounds stack.pointer address, stack.pointer⟩ }
  alter fun board => { board with stack := ⟨board.stack.entries, board.stack.pointer + 1⟩ }

/-- Gives the newest return address back: the pointer moves before the entry is read. -/
def pop : Work Fault UInt16 := do
  let stack := (← look).stack
  allow (stack.pointer ≠ 0) .stackEmpty
  alter fun board => { board with stack := ⟨board.stack.entries, board.stack.pointer - 1⟩ }
  let stack := (← look).stack
  entry stack.entries[stack.pointer]?

/-! ## Memory -/

/-- Finds a range from its start and its length; a range beyond memory is refused. -/
def range (start length : Nat) : Work Fault Unit := do
  allow (start + length ≤ memorySize ∧ start ≤ memorySize)
    (.addressOutOfBounds (max start memorySize))
  demand (start ≤ start + length ∧ start + length ≤ memorySize) .outOfRange

def readRange (start length : Nat) : Work Fault (List UInt8) := do
  range start length
  return (← look).memory.slice start length

/-- Reads a word, the more significant byte first. -/
def readWord (start : Nat) : Work Fault UInt16 := do
  let bytes ← readRange start 2
  let high ← entry bytes[0]?
  let low ← entry bytes[1]?
  return UInt16.ofNat (256 * high.toNat + low.toNat)

def writeRange (start : Nat) (bytes : List UInt8) : Work Fault Unit := do
  range start bytes.length
  alter fun board => { board with memory := board.memory.put start bytes }

/-! ## Registers and keys -/

def register (x : Nat) : Work ε UInt8 := do
  entry (← look).registers.cells[x]?

def setRegister (x : Nat) (value : UInt8) : Work ε Unit := do
  demand (x < 16) .outOfRange
  alter fun board =>
    { board with registers := ⟨board.registers.cells.setIfInBounds x value⟩ }

/-- The values of the registers from the first up to and including `x`. -/
def registersUpTo (x : Nat) : Work ε (List UInt8) := do
  demand (x + 1 ≤ 16) .outOfRange
  return (← look).registers.cells.toList.take (x + 1)

/-- Fills the registers from the first up to and including `x`. -/
def loadRegisters (x : Nat) (bytes : List UInt8) : Work ε Unit := do
  demand (x + 1 ≤ 16) .outOfRange
  demand (x + 1 = bytes.length) .lengthMismatch
  alter fun board => { board with registers := board.registers.load bytes }

def key (number : Nat) : Work ε Bool := do
  entry (← look).keypad.keys[number]?

/-- The first of some keys that is pressed. -/
def firstPressed : List Nat → Work ε (Option Nat)
  | [] => return none
  | number :: rest => do
      if ← key number then return some number
      else firstPressed rest

/-! ## Drawing -/

/-- Turns a pixel over and tells whether it was on. -/
def touch (row column : Nat) : Work ε Bool := do
  demand ((row + 1) * screenWidth ≤ (← look).pixels.size) .outOfRange
  demand (column < screenWidth) .outOfRange
  let word ← entry (← look).pixels[row * screenWidth + column]?
  alter fun board =>
    { board with
      pixels := board.pixels.setIfInBounds (row * screenWidth + column)
        (word ^^^ Screen.word true) }
  return word != Screen.word false

/-- Draws some bits of a sprite row that starts at column `x`, and tells whether a pixel was turned
off by now. -/
def paintBits (edge : Edge) (x row : Nat) (sprite : UInt8) : List Nat → Bool → Work ε Bool
  | [], hit => return hit
  | bit :: rest, hit => do
      demand (bit < 8) .overflow
      if sprite &&& (0x80 >>> UInt8.ofNat bit) = 0 then paintBits edge x row sprite rest hit
      else if edge = .clip ∧ screenWidth ≤ x + bit then return hit
      else
        let lit ← touch row ((x + bit) % screenWidth)
        paintBits edge x row sprite rest (hit || lit)

/-- Draws sprite rows from row `y` downwards, and tells whether a pixel was turned off by now. -/
def paintRows (edge : Edge) (x : Nat) : Nat → List UInt8 → Bool → Work ε Bool
  | _, [], hit => return hit
  | y, sprite :: rest, hit =>
      if edge = .clip ∧ screenHeight ≤ y then return hit
      else do
        let hit ← paintBits edge x (y % screenHeight) sprite (List.range 8) hit
        paintRows edge x (y + 1) rest hit

/-- Draws a sprite whose first pixel is at `(x, y)`, taken onto the screen first. -/
def paint (edge : Edge) (x y : Nat) (sprite : List UInt8) : Work ε Bool :=
  paintRows edge (x % screenWidth) (y % screenHeight) sprite false

end Work
end Chip8
