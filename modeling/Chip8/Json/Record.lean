import Chip8.Json.Scalar
import Chip8.Json.Skip

/-!
# JSON records

A record with named fields is read either from an object, whose members come in any order, or from
an array that holds the fields in their order and nothing else.  Fields fill a draft one by one, and
what the draft lacks in the end is the owner's concern.

* `RecordField` — a key, whether a draft has its value, and how to read the value into the draft.
* `readRecord` — a draft from a record in either form; members with other keys are passed over, and
  a key that comes twice is refused.
* `readComplete` — a record whose draft has to lack nothing that its owner needs.
-/

namespace Chip8
namespace Json

/-- A field of a record that is read into drafts of a type. -/
structure RecordField (Draft : Type) where
  /-- The key of the field in an object. -/
  key : String
  /-- Whether a draft already has the field. -/
  isFilled : Draft → Bool
  /-- Reads the field's value into a draft. -/
  fill : Draft → Reader Draft

variable {Draft : Type}

/-- The field with a key whose value a draft keeps in one place. -/
def RecordField.of {α : Type} (key : String) (kept : Draft → Option α) (keep : Draft → α → Draft)
    (read : Reader α) : RecordField Draft where
  key := key
  isFilled draft := (kept draft).isSome
  fill draft := Reader.map (keep draft) read

/-- Reads the rest of a member from behind its key. -/
def readMember (fields : List (RecordField Draft)) (key : String) (draft : Draft) : Reader Draft :=
  fun text =>
    match fields.find? (·.key == key) with
    | some field =>
        if field.isFilled draft then .error .invalid
        else do
          let rest ← symbol colon text
          field.fill draft rest
    | none => do
        let rest ← symbol colon text
        let rest ← skipValue rest
        return (draft, rest)

/-- Passes over the comma that stands in front of every entry but the first. -/
def skipSeparator (isFirst : Bool) (text : List UInt8) : Except Refusal (List UInt8) :=
  if isFirst then .ok text else symbol comma text

/-- Reads the members of an object up to its end; every member spends fuel. -/
def readMembers (fields : List (RecordField Draft)) : Nat → Bool → Draft → Reader Draft
  | 0, _, _, _ => .error .invalid
  | fuel + 1, isFirst, draft, text =>
      match skipBlanks text with
      | [] => .error .truncated
      | byte :: rest =>
          if byte = closeBrace then .ok (draft, rest)
          else do
            let rest ← skipSeparator isFirst (byte :: rest)
            let rest ← symbol quote rest
            let (key, rest) ← readString rest
            let (draft, rest) ← readMember fields key draft rest
            readMembers fields fuel false draft rest

/-- Reads the fields of an array in their order up to its end. -/
def readElements : List (RecordField Draft) → Bool → Draft → Reader Draft
  | [], _, draft, text => do
      let rest ← symbol closeBracket text
      return (draft, rest)
  | field :: fields, isFirst, draft, text => do
      let rest ← skipSeparator isFirst text
      let (draft, rest) ← field.fill draft rest
      readElements fields false draft rest

/-- Reads a record.  Every member takes at least one byte, so the fuel is enough. -/
def readRecord (fields : List (RecordField Draft)) (empty : Draft) : Reader Draft := fun text =>
  match skipBlanks text with
  | [] => .error .truncated
  | byte :: rest =>
      if byte = openBrace then readMembers fields (rest.length + 1) true empty rest
      else if byte = openBracket then readElements fields true empty rest
      else .error (wrongKind (byte :: rest))

/-- Reads a record and finishes its draft, which is refused if it lacks something. -/
def readComplete {α : Type} (fields : List (RecordField Draft)) (empty : Draft)
    (finish : Draft → Option α) : Reader α := fun text => do
  let (draft, rest) ← readRecord fields empty text
  match finish draft with
  | some value => return (value, rest)
  | none => .error .invalid

end Json
end Chip8
