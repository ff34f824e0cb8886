import Chip8.Digit

/-!
# The instruction set

Thirty-five instructions.  Those that combine two registers and those that skip on a condition are
gathered in types of their own, because all of a kind act alike but for one function.

* `Combine` — the nine ways to combine two registers.
* `Condition` — the six conditions for a skip.
* `Instruction` — the instructions with their operands; operands carry their range in their types.
* `Instruction.name` — the four-letter template of an instruction, `X` and `Y` standing for register
  digits and a run of `N` for a number.
-/

namespace Chip8

/-- An address that an instruction word can name. -/
abbrev Address := Fin 0x1000

/-- The ways to combine two registers. -/
inductive Combine where
  /-- Take the second value. -/
  | copy
  | or
  | and
  | xor
  /-- Sum; the flag tells a carry. -/
  | add
  /-- First minus second; the flag tells that nothing was borrowed. -/
  | subtract
  /-- One bit to the right; the flag is the bit that falls out. -/
  | shiftRight
  /-- Second minus first; the flag tells that nothing was borrowed. -/
  | subtractFrom
  /-- One bit to the left; the flag is the bit that falls out. -/
  | shiftLeft
deriving DecidableEq, Repr

/-- The conditions on which the next instruction is skipped. -/
inductive Condition where
  | isByte (x : Digit) (nn : UInt8)
  | isNotByte (x : Digit) (nn : UInt8)
  | same (x y : Digit)
  | different (x y : Digit)
  /-- The key named by the register is pressed. -/
  | keyDown (x : Digit)
  /-- The key named by the register is released. -/
  | keyUp (x : Digit)
deriving DecidableEq, Repr

/-- The instructions. -/
inductive Instruction where
  | clearScreen
  /-- Go back behind the latest call. -/
  | ret
  /-- Call a native routine; there is no native code, so nothing happens. -/
  | machineCall (target : Address)
  | jump (target : Address)
  /-- Go to an address and come back later. -/
  | call (target : Address)
  | skipIf (condition : Condition)
  | setByte (x : Digit) (nn : UInt8)
  /-- Add a byte to a register without touching the flag. -/
  | addByte (x : Digit) (nn : UInt8)
  /-- Combine two registers into the first. -/
  | combine (op : Combine) (x y : Digit)
  | setIndex (target : Address)
  /-- Go to an address plus the value of a register. -/
  | jumpOffset (base : Address)
  /-- Set a register to a random byte under a mask. -/
  | random (x : Digit) (nn : UInt8)
  /-- Draw a sprite of some rows from the index register on; the flag tells a collision. -/
  | draw (x y : Digit) (rows : Digit)
  | readDelay (x : Digit)
  /-- Stay here until a key is pressed and keep its number. -/
  | waitKey (x : Digit)
  | setDelay (x : Digit)
  | setSound (x : Digit)
  | addIndex (x : Digit)
  /-- Point the index register to the glyph of a digit. -/
  | pointGlyph (x : Digit)
  /-- Store the three decimal digits of a register. -/
  | storeDecimal (x : Digit)
  /-- Store the registers up to and including one. -/
  | storeBlock (x : Digit)
  /-- Load the registers up to and including one. -/
  | loadBlock (x : Digit)
deriving DecidableEq, Repr

def Combine.name : Combine → String
  | copy => "8XY0"
  | or => "8XY1"
  | and => "8XY2"
  | xor => "8XY3"
  | add => "8XY4"
  | subtract => "8XY5"
  | shiftRight => "8XY6"
  | subtractFrom => "8XY7"
  | shiftLeft => "8XYE"

def Condition.name : Condition → String
  | isByte _ _ => "3XNN"
  | isNotByte _ _ => "4XNN"
  | same _ _ => "5XY0"
  | different _ _ => "9XY0"
  | keyDown _ => "EX9E"
  | keyUp _ => "EXA1"

namespace Instruction

/-- The template of an instruction. -/
def name : Instruction → String
  | clearScreen => "00E0"
  | ret => "00EE"
  | machineCall _ => "0NNN"
  | jump _ => "1NNN"
  | call _ => "2NNN"
  | skipIf condition => condition.name
  | setByte _ _ => "6XNN"
  | addByte _ _ => "7XNN"
  | combine op _ _ => op.name
  | setIndex _ => "ANNN"
  | jumpOffset _ => "BNNN"
  | random _ _ => "CXNN"
  | draw _ _ _ => "DXYN"
  | readDelay _ => "FX07"
  | waitKey _ => "FX0A"
  | setDelay _ => "FX15"
  | setSound _ => "FX18"
  | addIndex _ => "FX1E"
  | pointGlyph _ => "FX29"
  | storeDecimal _ => "FX33"
  | storeBlock _ => "FX55"
  | loadBlock _ => "FX65"

/-- Whether an instruction can change the screen. -/
def updatesScreen : Instruction → Bool
  | clearScreen | draw _ _ _ => true
  | _ => false

end Instruction
end Chip8
