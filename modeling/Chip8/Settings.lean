import Chip8.Screen

/-!
# Settings of a machine

What a host chooses before a machine starts: speed, the places of program and font, the seed of the
random bytes, and a dialect.  Interpreters differ in the meaning of a few instructions; a dialect
says which meaning applies.

* `Dialect` — the choices, with the modern dialect as default and `Dialect.cosmacVip` beside it.
* `Settings` — everything a machine is started with.
* `Edge.name`, `Edge.ofName?`, `truthText` — how choices are written wherever settings are text.
-/

namespace Chip8

def Edge.name : Edge → String
  | clip => "Clip"
  | wrap => "Wrap"

def Edge.ofName? (name : String) : Option Edge :=
  if name = "Clip" then some clip
  else if name = "Wrap" then some wrap
  else none

/-- The meaning of the instructions on which interpreters differ. -/
structure Dialect where
  /-- Moving a block of registers leaves the index register behind the block. -/
  blockMovesIndex : Bool := false
  /-- The bitwise combinations clear the flag. -/
  logicClearsFlag : Bool := false
  /-- A shift takes its value from the second register. -/
  shiftReadsSecond : Bool := false
  /-- A computed jump adds the register named by the first digit of its target. -/
  jumpReadsNamed : Bool := false
  /-- What happens to sprites at the right and the bottom edge. -/
  edge : Edge := .clip
deriving DecidableEq, Repr

/-- The dialect of the COSMAC VIP. -/
def Dialect.cosmacVip : Dialect where
  blockMovesIndex := true
  logicClearsFlag := true
  shiftReadsSecond := true

def truthText (value : Bool) : String :=
  if value then "true" else "false"

/-- What a machine is started with. -/
structure Settings where
  /-- Instructions per second. -/
  speed : UInt64 := 720
  /-- The address at which the program is placed and started. -/
  programStart : UInt16 := 0x200
  /-- The address at which the font is placed. -/
  fontStart : UInt16 := 0x000
  dialect : Dialect := {}
  /-- The seed of the random bytes; without one the machine draws on the host's own key. -/
  seed : Option UInt64 := none
deriving DecidableEq, Repr

end Chip8
