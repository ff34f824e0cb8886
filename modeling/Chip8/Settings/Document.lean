import Chip8.Json.Reader
import Chip8.Numeral
import Chip8.Settings

/-!
# The settings document

Settings are kept as a JSON object with one member to a line, indented by two spaces for every
level, in a fixed order and without a line end behind the last line.

* `Settings.save` — the text of the document.
* `Settings.saveBytes` — the same as bytes; the text is ASCII.
-/

namespace Chip8

namespace Settings

/-! ## Keys -/

def speedKey : String := "processor_speed_hertz"

def programStartKey : String := "program_start_address"

def fontStartKey : String := "font_start_address"

def dialectKey : String := "quirks"

def seedKey : String := "rng_seed"

def blockMovesIndexKey : String := "load_store_increments_index"

def logicClearsFlagKey : String := "logic_resets_flag"

def shiftReadsSecondKey : String := "shift_uses_vy"

def jumpReadsNamedKey : String := "jump_uses_vx"

def edgeKey : String := "sprite_edge"

/-! ## Layout -/

/-- The text of a string that needs no escapes. -/
def quoted (text : String) : String := "\"" ++ text ++ "\""

/-- The spaces in front of a line at a level. -/
def indent (level : Nat) : String := String.ofList (List.replicate (2 * level) ' ')

/-- The lines of an object's members at a level, from behind its opening brace to its last value. -/
def memberLines (level : Nat) : List (String × String) → String
  | [] => ""
  | (key, value) :: rest =>
      "\n" ++ indent level ++ quoted key ++ ": " ++ value
        ++ (if rest.isEmpty then "" else ",") ++ memberLines level rest

/-- The text of an object whose members stand at a level; the values are texts already. -/
def objectText (level : Nat) (members : List (String × String)) : String :=
  "\x7b" ++ memberLines level members ++ "\n" ++ indent (level - 1) ++ "\x7d"

def dialectText (dialect : Dialect) : String :=
  objectText 2
    [(blockMovesIndexKey, truthText dialect.blockMovesIndex),
     (logicClearsFlagKey, truthText dialect.logicClearsFlag),
     (shiftReadsSecondKey, truthText dialect.shiftReadsSecond),
     (jumpReadsNamedKey, truthText dialect.jumpReadsNamed),
     (edgeKey, quoted dialect.edge.name)]

def seedText : Option UInt64 → String
  | some seed => Numeral.decimal seed.toNat
  | none => "null"

/-- The text of the document. -/
def save (settings : Settings) : String :=
  objectText 1
    [(speedKey, Numeral.decimal settings.speed.toNat),
     (programStartKey, Numeral.decimal settings.programStart.toNat),
     (fontStartKey, Numeral.decimal settings.fontStart.toNat),
     (dialectKey, dialectText settings.dialect),
     (seedKey, seedText settings.seed)]

def saveBytes (settings : Settings) : List UInt8 :=
  Json.asciiWord settings.save

end Settings
end Chip8
