import Chip8.Fault
import Chip8.Instruction
import Chip8.Settings

/-!
# Log records

What a machine tells about its work, as data; a record has a level and a text.

* `Log.Record` — the things that are told.
* `Log.Record.level`, `Log.Record.text` — how urgent a record is, and its text.
-/

namespace Chip8
namespace Log

/-- How urgent a record is. -/
inductive Level where
  /-- Every step of the work. -/
  | trace
  /-- Noteworthy turns of the work. -/
  | debug
  /-- Faults. -/
  | warn
deriving DecidableEq, Repr

/-- Something a machine tells about its work. -/
inductive Record where
  | starting (programStart fontStart : UInt16) (dialect : Dialect)
  | fontLoaded (size : Nat) (address : UInt16)
  | programLoaded (size : Nat) (address : UInt16)
  /-- An instruction is about to be carried out. -/
  | decoded (address word : UInt16) (instruction : Instruction)
  /-- A call of native code was passed over. -/
  | machineCallIgnored (target : Address)
  /-- The machine starts to wait for a key. -/
  | waiting
  /-- The machine goes on after waiting for a key. -/
  | resumed (key : Digit)
  | crashed (address : UInt16) (fault : Fault)
deriving DecidableEq, Repr

open Numeral

def dialectText (dialect : Dialect) : String :=
  "Quirks \x7b load_store_increments_index: " ++ truthText dialect.blockMovesIndex
    ++ ", logic_resets_flag: " ++ truthText dialect.logicClearsFlag
    ++ ", shift_uses_vy: " ++ truthText dialect.shiftReadsSecond
    ++ ", jump_uses_vx: " ++ truthText dialect.jumpReadsNamed
    ++ ", sprite_edge: " ++ dialect.edge.name ++ " \x7d"

namespace Record

/-- How urgent a record is. -/
def level : Record → Level
  | decoded _ _ _ => .trace
  | crashed _ _ => .warn
  | _ => .debug

def text : Record → String
  | starting programStart fontStart dialect =>
      "initialising processor: program at " ++ hex 3 programStart.toNat ++ ", font at "
        ++ hex 3 fontStart.toNat ++ ", " ++ dialectText dialect
  | fontLoaded size address =>
      "loaded " ++ decimal size ++ " bytes of font data at " ++ hex 3 address.toNat
  | programLoaded size address =>
      "loaded " ++ decimal size ++ " byte program at " ++ hex 3 address.toNat
  | decoded address word instruction =>
      hex 3 address.toNat ++ ": " ++ String.ofList (hexDigits 4 word.toNat)
        ++ " (" ++ instruction.name ++ ")"
  | machineCallIgnored target => "ignoring machine code routine call to " ++ hex 3 target.val
  | waiting => "waiting for keypress"
  | resumed key => "key " ++ String.ofList (hexDigits 1 key.val) ++ " pressed, resuming"
  | crashed address fault =>
      "processor crashed at " ++ hex 3 address.toNat ++ ": " ++ fault.message

end Record
end Log
end Chip8
