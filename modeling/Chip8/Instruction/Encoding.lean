import Chip8.Instruction

/-!
# Instruction words

Every instruction is written as one word: its template with the operands filled in.

* `Instruction.encode` — the word of an instruction, built from `Instruction.name`.
* `Instruction.decode` — the instruction of a word, if the word fits a template; the words `0x00E0`
  and `0x00EE` have instructions of their own and are no machine calls.
-/

namespace Chip8

/-- The address in the low three digits of a word. -/
def Address.ofWord (word : UInt16) : Address :=
  ⟨word.toNat % 0x1000, Nat.mod_lt _ (by decide)⟩

/-! ## Writing -/

/-- The operands of an instruction as they are written: two register numbers and a number. -/
structure Operands where
  x : Nat := 0
  y : Nat := 0
  /-- What a run of `N` at the end of a template stands for. -/
  number : Nat := 0
deriving DecidableEq, Repr

/-- The value of one template letter at a place, counted from the right. -/
def Operands.digit (operands : Operands) (letter : Char) (place : Nat) : Nat :=
  if letter = 'X' then operands.x
  else if letter = 'Y' then operands.y
  else if letter = 'N' then operands.number >>> (4 * place) % 16
  else if letter.isDigit then letter.toNat - '0'.toNat
  else letter.toNat - 'A'.toNat + 10

/-- The number written by a template with its operands filled in, behind the digits so far. -/
def Operands.fill (operands : Operands) (value : Nat) : List Char → Nat
  | [] => value
  | letter :: rest =>
      operands.fill (16 * value + operands.digit letter rest.length) rest

def Condition.operands : Condition → Operands
  | isByte x nn | isNotByte x nn => ⟨x.val, 0, nn.toNat⟩
  | same x y | different x y => ⟨x.val, y.val, 0⟩
  | keyDown x | keyUp x => ⟨x.val, 0, 0⟩

namespace Instruction

def operands : Instruction → Operands
  | clearScreen | ret => ⟨0, 0, 0⟩
  | machineCall target | jump target | call target | setIndex target | jumpOffset target =>
      ⟨0, 0, target.val⟩
  | skipIf condition => condition.operands
  | setByte x nn | addByte x nn | random x nn => ⟨x.val, 0, nn.toNat⟩
  | combine _ x y => ⟨x.val, y.val, 0⟩
  | draw x y rows => ⟨x.val, y.val, rows.val⟩
  | readDelay x | waitKey x | setDelay x | setSound x | addIndex x | pointGlyph x
  | storeDecimal x | storeBlock x | loadBlock x => ⟨x.val, 0, 0⟩

def encode (instruction : Instruction) : UInt16 :=
  UInt16.ofNat (instruction.operands.fill 0 instruction.name.toList)

end Instruction

/-! ## Reading -/

/-- The combination with a given last digit. -/
def Combine.ofDigit? (digit : Digit) : Option Combine :=
  match digit.val with
  | 0x0 => some copy
  | 0x1 => some or
  | 0x2 => some and
  | 0x3 => some xor
  | 0x4 => some add
  | 0x5 => some subtract
  | 0x6 => some shiftRight
  | 0x7 => some subtractFrom
  | 0xE => some shiftLeft
  | _ => none

namespace Instruction

/-- The instructions whose words start with the digit `E`, by their low byte. -/
def decodeKey (x : Digit) (code : Nat) : Option Instruction :=
  match code with
  | 0x9E => some (skipIf (.keyDown x))
  | 0xA1 => some (skipIf (.keyUp x))
  | _ => none

/-- The instructions whose words start with the digit `F`, by their low byte. -/
def decodeService (x : Digit) (code : Nat) : Option Instruction :=
  match code with
  | 0x07 => some (readDelay x)
  | 0x0A => some (waitKey x)
  | 0x15 => some (setDelay x)
  | 0x18 => some (setSound x)
  | 0x1E => some (addIndex x)
  | 0x29 => some (pointGlyph x)
  | 0x33 => some (storeDecimal x)
  | 0x55 => some (storeBlock x)
  | 0x65 => some (loadBlock x)
  | _ => none

def decode (word : UInt16) : Option Instruction :=
  let x := Digit.ofWord word 2
  let y := Digit.ofWord word 1
  let n := Digit.ofWord word 0
  let nn := word.toUInt8
  let nnn := Address.ofWord word
  match (Digit.ofWord word 3).val with
  | 0x0 =>
      if word = 0x00E0 then some clearScreen
      else if word = 0x00EE then some ret
      else some (machineCall nnn)
  | 0x1 => some (jump nnn)
  | 0x2 => some (call nnn)
  | 0x3 => some (skipIf (.isByte x nn))
  | 0x4 => some (skipIf (.isNotByte x nn))
  | 0x5 => if n.val = 0 then some (skipIf (.same x y)) else none
  | 0x6 => some (setByte x nn)
  | 0x7 => some (addByte x nn)
  | 0x8 => (Combine.ofDigit? n).map fun op => combine op x y
  | 0x9 => if n.val = 0 then some (skipIf (.different x y)) else none
  | 0xA => some (setIndex nnn)
  | 0xB => some (jumpOffset nnn)
  | 0xC => some (random x nn)
  | 0xD => some (draw x y n)
  | 0xE => decodeKey x nn.toNat
  | 0xF => decodeService x nn.toNat
  | _ => none

end Instruction
end Chip8
