import Chip8.Font
import Chip8.Instruction
import Chip8.Log
import Chip8.Machine

/-!
# What the instructions do

Every instruction is a function from the machine that stands at it to the next machine, or a fault.
All that can be refused is asked for before anything is built, so a fault leaves no trace.

* `Combine.apply` — the value and the flag of a combination of two registers.
* `Machine.holds` — whether the condition of a skip holds.
* `Machine.execute` — the effect of an instruction.
* `Machine.notes` — what an instruction tells the log.
-/

namespace Chip8

/-- The flag's value for a yes or no. -/
def flagOf (condition : Bool) : UInt8 :=
  if condition then 1 else 0

/-- The value of a combination of two registers, and the flag's value if the flag is written. -/
def Combine.apply (dialect : Dialect) (op : Combine) (first second : UInt8) :
    UInt8 × Option UInt8 :=
  let logicFlag := if dialect.logicClearsFlag then some 0 else none
  let shifted := if dialect.shiftReadsSecond then second else first
  match op with
  | copy => (second, none)
  | or => (first ||| second, logicFlag)
  | and => (first &&& second, logicFlag)
  | xor => (first ^^^ second, logicFlag)
  | add => (first + second, some (flagOf (255 < first.toNat + second.toNat)))
  | subtract => (first - second, some (flagOf (second ≤ first)))
  | shiftRight => (shifted >>> 1, some (shifted &&& 1))
  | subtractFrom => (second - first, some (flagOf (first ≤ second)))
  | shiftLeft => (shifted <<< 1, some (shifted >>> 7))

/-- Writes the value of a combination and after it the flag, so the flag stands if both meet. -/
def Registers.combine (registers : Registers) (dialect : Dialect) (op : Combine) (x y : Digit) :
    Registers :=
  let (value, flagValue) := op.apply dialect (registers.get x) (registers.get y)
  match flagValue with
  | none => registers.set x value
  | some flagValue => (registers.set x value).set Registers.flag flagValue

/-- The three decimal digits of a byte, hundreds first. -/
def decimalDigits (value : UInt8) : List UInt8 :=
  [value / 100, value / 10 % 10, value % 10]

namespace Machine

/-- The machine at the following instruction. -/
def goOn (machine : Machine) : Machine :=
  { machine with pc := machine.pc + 2 }

def setRegister (machine : Machine) (x : Digit) (value : UInt8) : Machine :=
  { machine with registers := machine.registers.set x value }

/-- Whether the condition of a skip holds; a key is named by the low digit of its register. -/
def holds (machine : Machine) : Condition → Bool
  | .isByte x nn => machine.registers.get x == nn
  | .isNotByte x nn => machine.registers.get x != nn
  | .same x y => machine.registers.get x == machine.registers.get y
  | .different x y => machine.registers.get x != machine.registers.get y
  | .keyDown x => machine.keypad.isPressed (.low (machine.registers.get x))
  | .keyUp x => !machine.keypad.isPressed (.low (machine.registers.get x))

/-- The target of a computed jump, as an exact sum. -/
def jumpTarget (machine : Machine) (base : Address) : Nat :=
  let x := Digit.ofNat (if machine.dialect.jumpReadsNamed then base.val / 256 else 0)
  base.val + (machine.registers.get x).toNat

/-- The index register after a block up to register `x` has been moved. -/
def indexAfterBlock (machine : Machine) (x : Digit) : UInt16 :=
  if machine.dialect.blockMovesIndex then machine.index + UInt16.ofNat (x.val + 1)
  else machine.index

/-- The effect of an instruction on the machine that stands at it. -/
def execute (machine : Machine) : Instruction → Except Fault Machine
  | .clearScreen => .ok { machine.goOn with screen := .blank }
  | .ret => do
      let (target, stack) ← machine.stack.pop
      return { machine with pc := target, stack }
  | .machineCall _ => .ok machine.goOn
  | .jump target => .ok { machine with pc := UInt16.ofNat target.val }
  | .call target => do
      let stack ← machine.stack.push (machine.pc + 2)
      return { machine with pc := UInt16.ofNat target.val, stack }
  | .skipIf condition =>
      .ok (if machine.holds condition then machine.goOn.goOn else machine.goOn)
  | .setByte x nn => .ok (machine.goOn.setRegister x nn)
  | .addByte x nn => .ok (machine.goOn.setRegister x (machine.registers.get x + nn))
  | .combine op x y =>
      .ok { machine.goOn with registers := machine.registers.combine machine.dialect op x y }
  | .setIndex target => .ok { machine.goOn with index := UInt16.ofNat target.val }
  | .jumpOffset base =>
      let target := machine.jumpTarget base
      if target < memorySize then .ok { machine with pc := UInt16.ofNat target }
      else .error (.addressOutOfBounds target)
  | .random x nn =>
      let (value, random) := machine.random.next
      .ok { machine.goOn.setRegister x (value &&& nn) with random }
  | .draw x y rows => do
      let sprite ← machine.memory.read machine.index.toNat rows.val
      let (screen, hit) := Screen.draw machine.dialect.edge
        (machine.registers.get x).toNat (machine.registers.get y).toNat sprite machine.screen
      return { machine.goOn.setRegister Registers.flag (flagOf hit) with screen }
  | .readDelay x => .ok (machine.goOn.setRegister x machine.timers.delay)
  | .waitKey x =>
      match machine.keypad.firstPressed with
      | some key =>
          .ok { machine.goOn.setRegister x (UInt8.ofNat key.val) with status := .running }
      | none => .ok { machine with status := .waitingForKeypress }
  | .setDelay x =>
      .ok { machine.goOn with
        timers := { machine.timers with delay := machine.registers.get x } }
  | .setSound x =>
      .ok { machine.goOn with
        timers := { machine.timers with sound := machine.registers.get x } }
  | .addIndex x =>
      .ok { machine.goOn with index := machine.index + (machine.registers.get x).toUInt16 }
  | .pointGlyph x =>
      let digit := Digit.low (machine.registers.get x)
      .ok { machine.goOn with
        index := UInt16.ofNat (machine.fontStart.toNat + Font.offset digit) }
  | .storeDecimal x => do
      let memory ← machine.memory.write machine.index.toNat
        (decimalDigits (machine.registers.get x))
      return { machine.goOn with memory }
  | .storeBlock x => do
      let memory ← machine.memory.write machine.index.toNat (machine.registers.upTo x)
      return { machine.goOn with memory, index := machine.indexAfterBlock x }
  | .loadBlock x => do
      let bytes ← machine.memory.read machine.index.toNat (x.val + 1)
      return { machine.goOn with
        registers := machine.registers.load bytes, index := machine.indexAfterBlock x }

/-- What an instruction tells the log, seen from the machine that stands at it. -/
def notes (machine : Machine) : Instruction → List Log.Record
  | .machineCall target => [.machineCallIgnored target]
  | .waitKey _ =>
      match machine.keypad.firstPressed with
      | some key => if machine.status = .waitingForKeypress then [.resumed key] else []
      | none => if machine.status = .waitingForKeypress then [] else [.waiting]
  | _ => []

end Machine
end Chip8
