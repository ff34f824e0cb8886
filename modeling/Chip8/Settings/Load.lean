import Chip8.Json.Record
import Chip8.Settings.Document

/-!
# Loading settings

The reader of the settings document accepts more than what is written: members in any order, other
members, arrays in place of objects, and any blanks.  It checks the form only; addresses that no
machine can start with are loaded all the same.

* `DialectDraft`, `SettingsDraft` — what has been read so far.
* `Settings.load` — the settings of a document, or the first obstacle.
-/

namespace Chip8

open Json

/-! ## The dialect -/

/-- What has been read of a dialect. -/
structure DialectDraft where
  blockMovesIndex : Option Bool := none
  logicClearsFlag : Option Bool := none
  shiftReadsSecond : Option Bool := none
  jumpReadsNamed : Option Bool := none
  edge : Option Edge := none
deriving DecidableEq, Repr

namespace DialectDraft

def fields : List (RecordField DialectDraft) :=
  [.of Settings.blockMovesIndexKey (·.blockMovesIndex)
    (fun draft value => { draft with blockMovesIndex := some value }) readBool,
   .of Settings.logicClearsFlagKey (·.logicClearsFlag)
    (fun draft value => { draft with logicClearsFlag := some value }) readBool,
   .of Settings.shiftReadsSecondKey (·.shiftReadsSecond)
    (fun draft value => { draft with shiftReadsSecond := some value }) readBool,
   .of Settings.jumpReadsNamedKey (·.jumpReadsNamed)
    (fun draft value => { draft with jumpReadsNamed := some value }) readBool,
   .of Settings.edgeKey (·.edge)
    (fun draft value => { draft with edge := some value }) (readChoice Edge.ofName?)]

/-- The dialect of a draft that lacks nothing. -/
def finish (draft : DialectDraft) : Option Dialect := do
  return {
    blockMovesIndex := ← draft.blockMovesIndex
    logicClearsFlag := ← draft.logicClearsFlag
    shiftReadsSecond := ← draft.shiftReadsSecond
    jumpReadsNamed := ← draft.jumpReadsNamed
    edge := ← draft.edge }

def read : Reader Dialect :=
  readComplete fields {} finish

end DialectDraft

/-! ## The settings -/

/-- What has been read of settings. -/
structure SettingsDraft where
  speed : Option UInt64 := none
  programStart : Option UInt16 := none
  fontStart : Option UInt16 := none
  dialect : Option Dialect := none
  /-- The seed, which may have been read as missing. -/
  seed : Option (Option UInt64) := none
deriving DecidableEq, Repr

namespace SettingsDraft

def fields : List (RecordField SettingsDraft) :=
  [.of Settings.speedKey (·.speed)
    (fun draft value => { draft with speed := some value }) readUInt64,
   .of Settings.programStartKey (·.programStart)
    (fun draft value => { draft with programStart := some value }) readUInt16,
   .of Settings.fontStartKey (·.fontStart)
    (fun draft value => { draft with fontStart := some value }) readUInt16,
   .of Settings.dialectKey (·.dialect)
    (fun draft value => { draft with dialect := some value }) DialectDraft.read,
   .of Settings.seedKey (·.seed)
    (fun draft value => { draft with seed := some value }) (readOptional readUInt64)]

/-- The settings of a draft that lacks nothing but the seed. -/
def finish (draft : SettingsDraft) : Option Settings := do
  return {
    speed := ← draft.speed
    programStart := ← draft.programStart
    fontStart := ← draft.fontStart
    dialect := ← draft.dialect
    seed := draft.seed.getD none }

def read : Reader Settings :=
  readComplete fields {} finish

end SettingsDraft

namespace Settings

/-- Loads settings from the bytes of a document, behind which only blanks may follow. -/
def load (text : List UInt8) : Except Refusal Settings := do
  let (settings, rest) ← SettingsDraft.read text
  atEnd rest
  return settings

end Settings
end Chip8
