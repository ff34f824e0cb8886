import Chip8.Json.Number
import Chip8.Json.Text

/-!
# Passing over a JSON value

A value that nobody asked for is passed over whole, however deep it nests.  The brackets that are
open are kept in a list, so no depth is too much.

* `skipValue` — the text behind the value at the front.
-/

namespace Chip8
namespace Json

/-- An opening bracket that has not been closed. -/
inductive Bracket where
  | array
  | object
deriving DecidableEq, Repr

def Bracket.close : Bracket → UInt8
  | array => closeBracket
  | object => closeBrace

/-- What has to come next while a value is passed over. -/
inductive Awaited where
  | value
  /-- The first entry of the innermost bracket, or its end. -/
  | first
  /-- A comma and another entry of the innermost bracket, or its end. -/
  | next
deriving DecidableEq, Repr

/-- Passes over a literal, a number or a string that starts with a given byte. -/
def skipScalar (byte : UInt8) (rest : List UInt8) : Except Refusal (List UInt8) :=
  if byte = ascii 'n' then literal (asciiWord "ull") rest
  else if byte = ascii 't' then literal (asciiWord "rue") rest
  else if byte = ascii 'f' then literal (asciiWord "alse") rest
  else if byte = quote then skipString rest
  else if byte = ascii '-' ∨ isDigit byte then (readNumber .invalid (byte :: rest)).map Prod.snd
  else .error .invalid

/-- Passes over what stands in front of the value of an entry: nothing in an array, and a key with
its colon in an object. -/
def skipKey (bracket : Bracket) (text : List UInt8) : Except Refusal (List UInt8) :=
  match bracket with
  | .array => .ok text
  | .object => do
      let rest ← symbol quote text
      let rest ← skipString rest
      symbol colon rest

/-- Passes over the rest of a value; every step but the last one spends fuel. -/
def skipFrom : Nat → Awaited → List Bracket → List UInt8 → Except Refusal (List UInt8)
  | _, .next, [], text => .ok text
  | 0, _, _, _ => .error .invalid
  | fuel + 1, .value, opened, text =>
      match skipBlanks text with
      | [] => .error .truncated
      | byte :: rest =>
          if byte = openBracket then skipFrom fuel .first (.array :: opened) rest
          else if byte = openBrace then skipFrom fuel .first (.object :: opened) rest
          else do
            let rest ← skipScalar byte rest
            skipFrom fuel .next opened rest
  | _ + 1, .first, [], _ => .error .invalid
  | fuel + 1, .first, bracket :: opened, text =>
      match skipBlanks text with
      | [] => .error .truncated
      | byte :: rest =>
          if byte = bracket.close then skipFrom fuel .next opened rest
          else do
            let rest ← skipKey bracket (byte :: rest)
            skipFrom fuel .value (bracket :: opened) rest
  | fuel + 1, .next, bracket :: opened, text =>
      match skipBlanks text with
      | [] => .error .truncated
      | byte :: rest =>
          if byte = bracket.close then skipFrom fuel .next opened rest
          else if byte = comma then do
            let rest ← skipKey bracket rest
            skipFrom fuel .value (bracket :: opened) rest
          else .error .invalid

/-- Passes over one value.  Two steps in a row take at least one byte, so the fuel is enough. -/
def skipValue (text : List UInt8) : Except Refusal (List UInt8) :=
  skipFrom (2 * text.length + 2) .value [] text

end Json
end Chip8
