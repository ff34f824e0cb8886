import Chip8.InPlace.Board
import Chip8.Instruction.Encoding
import Chip8.Machine.Operation

/-!
# Cycles in place

The instructions, cycles and frames of a machine as work on its board, step by step.  The program
counter is moved on before an instruction is carried out, and back again if it is refused.

* `Work.carryOut` — the effect of an instruction.
* `Work.cycle`, `Work.frame` — one cycle, and one frame.
* `Board.perform`, `Board.run` — host operations; a slip ends everything.
-/

namespace Chip8
namespace Work

variable {ε α : Type}

/-! ## Instructions -/

/-- Whether the condition of a skip holds. -/
def holds : Condition → Work ε Bool
  | .isByte x nn => do return (← register x.val) == nn
  | .isNotByte x nn => do return (← register x.val) != nn
  | .same x y => do return (← register x.val) == (← register y.val)
  | .different x y => do return (← register x.val) != (← register y.val)
  | .keyDown x => do key ((← register x.val).toNat % 16)
  | .keyUp x => do return !(← key ((← register x.val).toNat % 16))

/-- Writes the value of a combination and after it the flag. -/
def setCombined (x : Nat) (combined : UInt8 × Option UInt8) : Work ε Unit := do
  setRegister x combined.1
  match combined.2 with
  | none => return ()
  | some flagValue => setRegister Registers.flag.val flagValue

/-- Moves the index register past a block up to register `x`, if the dialect asks for it. -/
def passBlock (x : Nat) : Work ε Unit := do
  if (← look).dialect.blockMovesIndex then
    let length ← sum (← narrow x) 1
    alter fun board => { board with index := board.index + length }

/-- The effect of an instruction; the program counter has been moved on already. -/
def carryOut : Instruction → Work Fault Unit
  | .clearScreen =>
      alter fun board => { board with pixels := board.pixels.map fun _ => Screen.word false }
  | .ret => do leap (← pop)
  | .machineCall _ => return ()
  | .jump target => leap (UInt16.ofNat target.val)
  | .call target => do
      push (← look).pc
      leap (UInt16.ofNat target.val)
  | .skipIf condition => do
      if ← holds condition then advance
  | .setByte x nn => setRegister x.val nn
  | .addByte x nn => do setRegister x.val ((← register x.val) + nn)
  | .combine op x y => do
      let dialect := (← look).dialect
      setCombined x.val (op.apply dialect (← register x.val) (← register y.val))
  | .setIndex target => alter fun board => { board with index := UInt16.ofNat target.val }
  | .jumpOffset base => do
      let x := if (← look).dialect.jumpReadsNamed then base.val / 256 % 16 else 0
      let target ← sum (UInt16.ofNat base.val) (← register x).toUInt16
      allow (target.toNat < memorySize) (.addressOutOfBounds target.toNat)
      leap target
  | .random x nn => do
      let (value, random) := (← look).random.next
      alter fun board => { board with random }
      setRegister x.val (value &&& nn)
  | .draw x y rows => do
      let sprite ← readRange (← look).index.toNat rows.val
      let edge := (← look).dialect.edge
      let hit ← paint edge (← register x.val).toNat (← register y.val).toNat sprite
      setRegister Registers.flag.val (flagOf hit)
  | .readDelay x => do setRegister x.val (← look).timers.delay
  | .waitKey x => do
      match ← firstPressed (List.range 16) with
      | some number =>
          setRegister x.val (UInt8.ofNat number)
          alter fun board => { board with status := .running }
      | none =>
          retreat
          alter fun board => { board with status := .waitingForKeypress }
  | .setDelay x => do
      let value ← register x.val
      alter fun board => { board with timers := { board.timers with delay := value } }
  | .setSound x => do
      let value ← register x.val
      alter fun board => { board with timers := { board.timers with sound := value } }
  | .addIndex x => do
      let value ← register x.val
      alter fun board => { board with index := board.index + value.toUInt16 }
  | .pointGlyph x => do
      let digit := Digit.low (← register x.val)
      let address ← narrow ((← look).fontStart.toNat + Font.offset digit)
      alter fun board => { board with index := address }
  | .storeDecimal x => do
      let value ← register x.val
      writeRange (← look).index.toNat (decimalDigits value)
  | .storeBlock x => do
      let bytes ← registersUpTo x.val
      writeRange (← look).index.toNat bytes
      passBlock x.val
  | .loadBlock x => do
      let bytes ← readRange (← look).index.toNat (x.val + 1)
      loadRegisters x.val bytes
      passBlock x.val

/-! ## Cycles and frames -/

/-- Carries out work, and goes on from a refusal where it left the board. -/
def attempt (work : Work Fault α) (rescue : Fault → Work Crash α) : Work Crash α :=
  ⟨fun board =>
    match work.on board with
    | (.done value, later) => (.done value, later)
    | (.refused fault, later) => (rescue fault).on later
    | (.slipped slip, later) => (.slipped slip, later)⟩

/-- Crashes at the next instruction. -/
def crash (word : Option UInt16) (fault : Fault) : Work Crash α := do
  alter fun board => { board with status := .crashed }
  let board ← look
  refuse { fault, address := board.pc, word, dump := board.snapshot }

/-- Starts the board at its first cycle; a board that has crashed crashes again. -/
def wake : Work Crash Unit := do
  match (← look).status with
  | .programLoaded => alter fun board => { board with status := .running }
  | .running | .waitingForKeypress => return ()
  | .crashed => crash none .halted

/-- Counts a cycle. -/
def count : Work Crash Unit := do
  demand ((← look).cycles + 1 < 0x10000000000000000) .overflow
  alter fun board => { board with cycles := board.cycles + 1 }

/-- Reads a word as an instruction. -/
def decode (word : UInt16) : Work Crash Instruction :=
  match Instruction.decode word with
  | some instruction => return instruction
  | none => crash (some word) (.unknownInstruction word)

/-- Carries out the instruction of a word that has been fetched. -/
def perform (word : UInt16) : Work Crash Bool := do
  let instruction ← decode word
  let address := (← look).pc
  advance
  attempt (carryOut instruction) fun fault => do
    leap address
    crash (some word) fault
  return instruction.updatesScreen

/-- One cycle; the answer is whether the screen may be new. -/
def cycle : Work Crash Bool := do
  wake
  count
  let word ← attempt (readWord (← look).pc.toNat) (crash none)
  perform word

/-- Up to a number of cycles; the answer is whether the screen may be new by now. -/
def cycles : Nat → Bool → Work Crash Bool
  | 0, updated => return updated
  | number + 1, updated => do
      let now ← cycle
      cycles number (updated || now)

/-- One frame; the answer is whether the screen may be new. -/
def frame : Work Crash Bool := do
  let number := max ((← look).speed / ticksPerSecond) 1
  let updated ← cycles number.toNat false
  alter fun board => { board with timers := board.timers.tick }
  return updated

end Work

/-! ## Host operations -/

/-- The reply to a cycle or a frame; there is none to a slip. -/
def Ending.reply (board : Board) : Ending Crash Bool → Except Slip (Reply × Board)
  | .done updated => .ok (.updated updated, board)
  | .refused crash => .ok (.crashed crash, board)
  | .slipped slip => .error slip

namespace Board

/-- Carries out a host operation. -/
def perform (board : Board) : Operation → Except Slip (Reply × Board)
  | .cycle => (Work.cycle.on board).1.reply (Work.cycle.on board).2
  | .frame => (Work.frame.on board).1.reply (Work.frame.on board).2
  | .tick => .ok (.done, { board with timers := board.timers.tick })
  | .key number down =>
      match board.keypad.set number down with
      | .ok keypad => .ok (.done, { board with keypad })
      | .error fault => .ok (.refused fault, board)
  | .speed speed => .ok (.done, { board with speed })

/-- Carries out a list of host operations, with the replies to them. -/
def run (board : Board) : List Operation → Except Slip (List Reply × Board)
  | [] => .ok ([], board)
  | operation :: rest => do
      let (reply, next) ← board.perform operation
      let (replies, last) ← next.run rest
      return (reply :: replies, last)

end Board
end Chip8
