import Chip8.Numeral

/-!
# Faults and their texts

A fault is the cause for which a component refuses an operation.  An incident is a fault together
with the place where the machine met it.

* `Fault` — the causes, each with the values that its text names.
* `Fault.message` — the text of a fault.
* `Incident.message` — the text of a fault followed by its place: the address, and the instruction
  word if one had been fetched there.
-/

namespace Chip8

/-- The cause for which a component refuses an operation. -/
inductive Fault where
  /-- A fetched word is the encoding of no instruction. -/
  | unknownInstruction (word : UInt16)
  /-- A call is made while every entry of the call stack is in use. -/
  | stackFull
  /-- A return is made while no entry of the call stack is in use. -/
  | stackEmpty
  /-- A range of memory, or the target of a computed jump, lies beyond the last address. -/
  | addressOutOfBounds (address : Nat)
  /-- A program does not fit between its start and the end of memory. -/
  | programTooLarge (size capacity : Nat)
  /-- A program would start inside the region kept for the interpreter. -/
  | programInReservedRegion (address : Nat)
  /-- The font would end beyond the start of the program. -/
  | fontOutOfBounds (address : Nat)
  /-- A key number is beyond the sixteen keys. -/
  | invalidKey (key : UInt8)
  /-- A machine that has crashed is asked to go on. -/
  | halted
deriving DecidableEq, Repr

namespace Fault

open Numeral

/-- The text of a fault: words are shown with four digits, addresses with three, keys unpadded. -/
def message : Fault → String
  | unknownInstruction word =>
      "an unrecognised opcode " ++ hex 4 word.toNat ++ " was decoded"
  | stackFull => "stack overflow: a call was made with the stack full"
  | stackEmpty => "stack underflow: a return was made with the stack empty"
  | addressOutOfBounds address => "memory was accessed out of bounds at " ++ hex 3 address
  | programTooLarge size capacity =>
      "the program is " ++ decimal size ++ " bytes but only " ++ decimal capacity
        ++ " bytes are available"
  | programInReservedRegion address =>
      "the program cannot be loaded at " ++ hex 3 address ++ ", inside the reserved region"
  | fontOutOfBounds address => "the font overlaps the program area at " ++ hex 3 address
  | invalidKey key => "an invalid key " ++ hex 0 key.toNat ++ " was specified"
  | halted => "the processor has halted after an earlier fault"

end Fault

/-- A fault and the place where the machine met it. -/
structure Incident where
  /-- What went wrong. -/
  fault : Fault
  /-- The address of the instruction that was being carried out. -/
  address : UInt16
  /-- The instruction word at that address, if it had been fetched. -/
  word : Option UInt16
deriving DecidableEq, Repr

namespace Incident

open Numeral

/-- The place of an incident, as it stands in brackets behind the fault's text. -/
def place (incident : Incident) : String :=
  match incident.word with
  | some word => "instruction " ++ hex 4 word.toNat ++ " at " ++ hex 3 incident.address.toNat
  | none => "at " ++ hex 3 incident.address.toNat

/-- The text of an incident. -/
def message (incident : Incident) : String :=
  incident.fault.message ++ " (" ++ incident.place ++ ")"

end Incident
end Chip8
