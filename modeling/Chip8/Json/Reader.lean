/-!
# Reading JSON from the left

JSON text is read as bytes, in one pass from left to right, and the first obstacle decides.  A
reader gives the value at the front of a text together with the text behind it.

* `Refusal` — the two obstacles: the text ends too early, or no continuation could mend it.
* `Reader` — a value and the text behind it, or a refusal.
* `skipBlanks`, `symbol`, `literal` — blanks, a single sign, and a fixed word.
-/

namespace Chip8
namespace Json

/-- Why a text cannot be read. -/
inductive Refusal where
  /-- The text ends where more is needed. -/
  | truncated
  /-- The text is wrong, whatever might follow. -/
  | invalid
deriving DecidableEq, Repr

/-- Reads a value at the front of a text and gives the text behind it. -/
abbrev Reader (α : Type) := List UInt8 → Except Refusal (α × List UInt8)

/-- Applies a function to the value that is read. -/
def Reader.map {α β : Type} (f : α → β) (read : Reader α) : Reader β := fun text => do
  let (value, rest) ← read text
  return (f value, rest)

/-! ## Bytes with a meaning -/

def ascii (letter : Char) : UInt8 := UInt8.ofNat letter.toNat

def asciiWord (word : String) : List UInt8 := word.toList.map ascii

abbrev quote : UInt8 := 0x22

abbrev backslash : UInt8 := 0x5C

abbrev comma : UInt8 := 0x2C

abbrev colon : UInt8 := 0x3A

abbrev openBrace : UInt8 := 0x7B

abbrev closeBrace : UInt8 := 0x7D

abbrev openBracket : UInt8 := 0x5B

abbrev closeBracket : UInt8 := 0x5D

/-- Whether a byte is a space, a line feed, a tab or a carriage return. -/
def isBlank (byte : UInt8) : Bool :=
  byte == 0x20 || byte == 0x0A || byte == 0x09 || byte == 0x0D

def isDigit (byte : UInt8) : Bool :=
  0x30 ≤ byte && byte ≤ 0x39

/-! ## The smallest readers -/

/-- The text behind its leading blanks. -/
def skipBlanks (text : List UInt8) : List UInt8 :=
  text.dropWhile isBlank

/-- Passes over blanks and one sign that has to follow. -/
def symbol (sign : UInt8) (text : List UInt8) : Except Refusal (List UInt8) :=
  match skipBlanks text with
  | [] => .error .truncated
  | byte :: rest => if byte = sign then .ok rest else .error .invalid

/-- Passes over a fixed word that has to stand right here. -/
def literal : List UInt8 → List UInt8 → Except Refusal (List UInt8)
  | [], text => .ok text
  | _ :: _, [] => .error .truncated
  | letter :: word, byte :: rest =>
      if byte = letter then literal word rest else .error .invalid

/-- Succeeds if nothing but blanks is left. -/
def atEnd (text : List UInt8) : Except Refusal Unit :=
  if (skipBlanks text).isEmpty then .ok () else .error .invalid

end Json
end Chip8
