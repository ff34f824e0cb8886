import Chip8.Json.Number
import Chip8.Json.Text

/-!
# JSON values of a known kind

Readers that expect a value of one kind.  A value of another kind is refused, but a literal, a
number or a string in its place is read first, so that a text which ends inside it counts as
truncated; only where a name is expected nothing else is looked into.

* `wrongKind` — the refusal for a value of another kind.
* `readNatural`, `readBool`, `readOptional`, `readChoice` — a natural number below a limit, a truth
  value, null or a value, and one of some names.
* `readUInt16`, `readUInt64` — natural numbers of the two widths that settings have.
-/

namespace Chip8
namespace Json

/-- The refusal that a reading names, or `invalid` if it succeeds. -/
def refusalOf {α : Type} (reading : Except Refusal α) : Refusal :=
  match reading with
  | .error refusal => refusal
  | .ok _ => .invalid

/-- The refusal for a value of another kind than the one expected. -/
def wrongKind : List UInt8 → Refusal
  | [] => .truncated
  | byte :: rest =>
      if byte = ascii 'n' then refusalOf (literal (asciiWord "ull") rest)
      else if byte = ascii 't' then refusalOf (literal (asciiWord "rue") rest)
      else if byte = ascii 'f' then refusalOf (literal (asciiWord "alse") rest)
      else if byte = ascii '-' ∨ isDigit byte then
        refusalOf (readNumber .truncated (byte :: rest))
      else if byte = quote then refusalOf (readString rest)
      else .invalid

/-- Reads a natural number below a limit. -/
def readNatural (limit : Nat) : Reader Nat := fun text =>
  match skipBlanks text with
  | [] => .error .truncated
  | byte :: rest =>
      if byte = ascii '-' ∨ isDigit byte then do
        let (value, rest) ← readNumber .truncated (byte :: rest)
        match value with
        | some value => if value < limit then .ok (value, rest) else .error .invalid
        | none => .error .invalid
      else .error (wrongKind (byte :: rest))

def readUInt16 : Reader UInt16 :=
  Reader.map UInt16.ofNat (readNatural UInt16.size)

def readUInt64 : Reader UInt64 :=
  Reader.map UInt64.ofNat (readNatural UInt64.size)

def readBool : Reader Bool := fun text =>
  match skipBlanks text with
  | [] => .error .truncated
  | byte :: rest =>
      if byte = ascii 't' then (literal (asciiWord "rue") rest).map (true, ·)
      else if byte = ascii 'f' then (literal (asciiWord "alse") rest).map (false, ·)
      else .error (wrongKind (byte :: rest))

def readOptional {α : Type} (read : Reader α) : Reader (Option α) := fun text =>
  match skipBlanks text with
  | [] => .error .truncated
  | byte :: rest =>
      if byte = ascii 'n' then (literal (asciiWord "ull") rest).map (none, ·)
      else Reader.map some read (byte :: rest)

def readNull (text : List UInt8) : Except Refusal (List UInt8) :=
  match skipBlanks text with
  | [] => .error .truncated
  | byte :: rest =>
      if byte = ascii 'n' then literal (asciiWord "ull") rest
      else .error (wrongKind (byte :: rest))

/-- Reads a string from behind its opening quote and gives what it names. -/
def readName {α : Type} (named : String → Option α) : Reader α := fun text => do
  let (name, rest) ← readString text
  match named name with
  | some value => return (value, rest)
  | none => .error .invalid

/-- Reads one of some names: as a string, or as the key of an object with the single value null.  In
place of the string or of the key no other value is looked into. -/
def readChoice {α : Type} (named : String → Option α) : Reader α := fun text =>
  match skipBlanks text with
  | [] => .error .truncated
  | byte :: rest =>
      if byte = quote then readName named rest
      else if byte = openBrace then do
        let rest ← symbol quote rest
        let (value, rest) ← readName named rest
        let rest ← symbol colon rest
        let rest ← readNull rest
        let rest ← symbol closeBrace rest
        return (value, rest)
      else .error .invalid

end Json
end Chip8
