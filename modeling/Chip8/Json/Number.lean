import Chip8.Json.Reader

/-!
# JSON numbers

A number is a whole part without superfluous zeros, then a fraction and an exponent if present.
Only a bare natural number has a value here: a sign, a fraction or an exponent takes a number out
of the range of every setting, whatever it denotes.

* `readNumber` — a number of any length; its value if it is a bare natural number.
* `digitsValue` — the number written by decimal digits.
-/

namespace Chip8
namespace Json

/-- The number written by decimal digits, continuing from the digits before them. -/
def digitsFrom (value : Nat) (digits : List UInt8) : Nat :=
  digits.foldl (fun value digit => 10 * value + (digit.toNat - 0x30)) value

def digitsValue (digits : List UInt8) : Nat :=
  digitsFrom 0 digits

/-- Refuses a text at which a digit is needed; at the end of the text it names the given refusal. -/
def digitMissing (ending : Refusal) : List UInt8 → Refusal
  | [] => ending
  | _ :: _ => .invalid

/-- Reads one digit or more. -/
def readDigits (ending : Refusal) (text : List UInt8) : Except Refusal (List UInt8 × List UInt8) :=
  let digits := text.takeWhile isDigit
  let rest := text.dropWhile isDigit
  if digits.isEmpty then .error (digitMissing ending rest) else .ok (digits, rest)

/-- Reads the whole part of a number: a zero that no digit follows, or digits without a zero in
front. -/
def readWhole (ending : Refusal) (text : List UInt8) : Except Refusal (Nat × List UInt8) := do
  let (digits, rest) ← readDigits ending text
  if digits.head? = some 0x30 ∧ digits.length ≠ 1 then .error .invalid
  else return (digitsValue digits, rest)

/-- Reads a fraction if one is present, and tells whether it is. -/
def readFraction (ending : Refusal) : List UInt8 → Except Refusal (Bool × List UInt8)
  | 0x2E :: rest => do
      let (_, rest) ← readDigits ending rest
      return (true, rest)
  | text => .ok (false, text)

/-- Passes over a sign if one is present. -/
def skipSign : List UInt8 → List UInt8
  | 0x2B :: rest => rest
  | 0x2D :: rest => rest
  | text => text

/-- Reads an exponent if one is present, and tells whether it is. -/
def readExponent (ending : Refusal) : List UInt8 → Except Refusal (Bool × List UInt8)
  | [] => .ok (false, [])
  | byte :: rest =>
      if byte = 0x65 ∨ byte = 0x45 then do
        let (_, rest) ← readDigits ending (skipSign rest)
        return (true, rest)
      else .ok (false, byte :: rest)

def readUnsigned (ending : Refusal) (text : List UInt8) :
    Except Refusal (Option Nat × List UInt8) := do
  let (value, rest) ← readWhole ending text
  let (hasFraction, rest) ← readFraction ending rest
  let (hasExponent, rest) ← readExponent ending rest
  return (if hasFraction || hasExponent then none else some value, rest)

/-- Reads a number and gives its value if it is a bare natural number.  Where the text ends in the
middle of a number, the given refusal is named. -/
def readNumber (ending : Refusal) : Reader (Option Nat)
  | 0x2D :: rest => do
      let (_, rest) ← readUnsigned ending rest
      return (none, rest)
  | text => readUnsigned ending text

end Json
end Chip8
