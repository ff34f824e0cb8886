import Chip8.Json.Reader

/-!
# JSON strings

A string is read byte by byte from behind its opening quote.  Escapes are resolved to UTF-8, and the
bytes between the quotes have to be UTF-8 in the end.

* `readString` — the characters of a string.
* `skipString` — passes over a string; its escapes have to be well formed, but they need not denote
  characters.
-/

namespace Chip8
namespace Json

/-! ## Escapes -/

/-- The byte that a short escape stands for. -/
def shortEscape (byte : UInt8) : Option UInt8 :=
  if byte = quote then some quote
  else if byte = backslash then some backslash
  else if byte = ascii '/' then some (ascii '/')
  else if byte = ascii 'b' then some 0x08
  else if byte = ascii 'f' then some 0x0C
  else if byte = ascii 'n' then some 0x0A
  else if byte = ascii 'r' then some 0x0D
  else if byte = ascii 't' then some 0x09
  else none

/-- The value of a hexadecimal digit in either case. -/
def hexValue (byte : UInt8) : Option Nat :=
  if 0x30 ≤ byte ∧ byte ≤ 0x39 then some (byte.toNat - 0x30)
  else if 0x41 ≤ byte ∧ byte ≤ 0x46 then some (byte.toNat - 0x41 + 10)
  else if 0x61 ≤ byte ∧ byte ≤ 0x66 then some (byte.toNat - 0x61 + 10)
  else none

/-- The number written by hexadecimal digits, the first digit first. -/
def hexNumber (digits : List UInt8) : Option Nat :=
  digits.foldl (fun value digit => do return 16 * (← value) + (← hexValue digit)) (some 0)

/-- Whether a code unit is the first half of a pair. -/
def isHighHalf (unit : Nat) : Bool := 0xD800 ≤ unit && unit ≤ 0xDBFF

/-- Whether a code unit is the second half of a pair. -/
def isLowHalf (unit : Nat) : Bool := 0xDC00 ≤ unit && unit ≤ 0xDFFF

/-- The code point of a pair of code units. -/
def joinHalves (high low : Nat) : Nat :=
  0x10000 + 0x400 * (high - 0xD800) + (low - 0xDC00)

def utf8 (codePoint : Nat) : List UInt8 :=
  String.utf8EncodeChar (Char.ofNat codePoint)

/-! ## Reading -/

/-- Where in a string a reader stands. -/
inductive TextPhase where
  | plain
  | escape
  /-- Among the digits of a code unit, some of them read; there may be a first half in front. -/
  | unit (high : Option Nat) (digits : List UInt8)
  /-- Behind a first half, at the backslash of the second. -/
  | pairBackslash (high : Nat)
  /-- Behind a first half, at the letter of the second. -/
  | pairLetter (high : Nat)
deriving DecidableEq, Repr

/-- Takes in the four digits of a code unit: the phase behind them and the bytes found, or nothing
if the digits are none or the halves of a pair do not match. -/
def takeUnit (high : Option Nat) (digits : List UInt8) : Option (TextPhase × List UInt8) := do
  let unit ← hexNumber digits
  match high with
  | some high => if isLowHalf unit then some (.plain, utf8 (joinHalves high unit)) else none
  | none =>
      if isLowHalf unit then none
      else if isHighHalf unit then some (.pairBackslash unit, [])
      else some (.plain, utf8 unit)

/-- Takes in one byte of a string that does not end it: the next phase and the bytes found. -/
def takeByte (phase : TextPhase) (byte : UInt8) : Option (TextPhase × List UInt8) :=
  match phase with
  | .plain =>
      if byte = backslash then some (.escape, [])
      else if byte < 0x20 then none
      else some (.plain, [byte])
  | .escape =>
      if byte = ascii 'u' then some (.unit none [], [])
      else (shortEscape byte).map fun found => (.plain, [found])
  | .unit high digits =>
      let digits := digits ++ [byte]
      if digits.length < 4 then some (.unit high digits, []) else takeUnit high digits
  | .pairBackslash high =>
      if byte = backslash then some (.pairLetter high, []) else none
  | .pairLetter high =>
      if byte = ascii 'u' then some (.unit (some high) [], []) else none

/-- Reads on in a string; the bytes found so far come last byte first. -/
def readStringFrom (phase : TextPhase) (found : List UInt8) : Reader String
  | [] => .error .truncated
  | byte :: rest =>
      if phase = .plain ∧ byte = quote then
        match String.fromUTF8? found.reverse.toByteArray with
        | some text => .ok (text, rest)
        | none => .error .invalid
      else
        match takeByte phase byte with
        | some (phase, bytes) => readStringFrom phase (bytes.reverse ++ found) rest
        | none => .error .invalid

/-- Reads a string from behind its opening quote. -/
def readString : Reader String :=
  readStringFrom .plain []

/-! ## Passing over -/

/-- Where in a string that is passed over a reader stands. -/
inductive SkipPhase where
  | plain
  | escape
  /-- Among the digits of a code unit, some of them read. -/
  | unit (digits : List UInt8)
deriving DecidableEq, Repr

/-- Passes over one byte of a string that does not end it. -/
def skipByte (phase : SkipPhase) (byte : UInt8) : Option SkipPhase :=
  match phase with
  | .plain =>
      if byte = backslash then some .escape
      else if byte < 0x20 then none
      else some .plain
  | .escape =>
      if byte = ascii 'u' then some (.unit [])
      else (shortEscape byte).map fun _ => .plain
  | .unit digits =>
      let digits := digits ++ [byte]
      if digits.length < 4 then some (.unit digits) else (hexNumber digits).map fun _ => .plain

def skipStringFrom (phase : SkipPhase) : List UInt8 → Except Refusal (List UInt8)
  | [] => .error .truncated
  | byte :: rest =>
      if phase = .plain ∧ byte = quote then .ok rest
      else
        match skipByte phase byte with
        | some phase => skipStringFrom phase rest
        | none => .error .invalid

/-- Passes over a string from behind its opening quote. -/
def skipString (text : List UInt8) : Except Refusal (List UInt8) :=
  skipStringFrom .plain text

end Json
end Chip8
