import Chip8.Snapshot
import Chip8.Proofs.Message.Numeral

/-!
# Faults read back from their texts

The text of a fault opens with words that belong to its kind alone, and no opening is the beginning
of another.  Behind the opening stand the numbers of the fault, each of which ends where its letters
do.  So a fault is read back from its text in front of any other text that continues no numeral, as
the place of an incident does.

* `Fault.Kind`, `Kind.opening` — the kinds of faults and the words with which their texts open.
* `eq_of_opening_prefix` — no opening is the beginning of another.
* `Fault.ofText?`, `Incident.ofText?` — the fault, or the incident, that a text tells of.
* `ofText?_message` — a fault is read back from its text whatever follows it, and so is an incident.
* `texts_identify_faults` — equal texts are those of equal faults, and of incidents that are equal
  in fault, word and address.
-/

namespace Chip8
namespace Fault

open Numeral

/-- The kinds of faults. -/
inductive Kind where
  | unknownInstruction
  | stackFull
  | stackEmpty
  | addressOutOfBounds
  | programTooLarge
  | programInReservedRegion
  | fontOutOfBounds
  | invalidKey
  | halted
deriving DecidableEq, Repr

def kinds : List Kind :=
  [.unknownInstruction, .stackFull, .stackEmpty, .addressOutOfBounds, .programTooLarge,
    .programInReservedRegion, .fontOutOfBounds, .invalidKey, .halted]

theorem mem_kinds (kind : Kind) : kind ∈ kinds := by
  cases kind <;> decide

def kind : Fault → Kind
  | unknownInstruction _ => .unknownInstruction
  | stackFull => .stackFull
  | stackEmpty => .stackEmpty
  | addressOutOfBounds _ => .addressOutOfBounds
  | programTooLarge _ _ => .programTooLarge
  | programInReservedRegion _ => .programInReservedRegion
  | fontOutOfBounds _ => .fontOutOfBounds
  | invalidKey _ => .invalidKey
  | halted => .halted

namespace Kind

/-- The words with which the texts of a kind open: all up to the first number, if there is one. -/
def opening : Kind → String
  | unknownInstruction => "an unrecognised opcode "
  | stackFull => "stack overflow: a call was made with the stack full"
  | stackEmpty => "stack underflow: a return was made with the stack empty"
  | addressOutOfBounds => "memory was accessed out of bounds at "
  | programTooLarge => "the program is "
  | programInReservedRegion => "the program cannot be loaded at "
  | fontOutOfBounds => "the font overlaps the program area at "
  | invalidKey => "an invalid key "
  | halted => "the processor has halted after an earlier fault"

/-- The fault of a kind, with its numbers read from what stands behind the opening. -/
def read : Kind → List Char → Fault
  | unknownInstruction, text => .unknownInstruction (.ofNat (readHex text).1)
  | stackFull, _ => .stackFull
  | stackEmpty, _ => .stackEmpty
  | addressOutOfBounds, text => .addressOutOfBounds (readHex text).1
  | programTooLarge, text =>
      let (size, rest) := readDecimal text
      .programTooLarge size (readDecimal (behind " bytes but only " rest)).1
  | programInReservedRegion, text => .programInReservedRegion (readHex text).1
  | fontOutOfBounds, text => .fontOutOfBounds (readHex text).1
  | invalidKey, text => .invalidKey (.ofNat (readHex text).1)
  | halted, _ => .halted

/-- No opening is the beginning of another. -/
theorem eq_of_opening_prefix {first second : Kind}
    (hbegins : first.opening.toList <+: second.opening.toList) : first = second := by
  have hcode : ∀ first ∈ kinds, ∀ second ∈ kinds,
      first.opening.toList.isPrefixOf second.opening.toList → first = second := by decide +kernel
  exact hcode first (mem_kinds first) second (mem_kinds second)
    (List.isPrefixOf_iff_prefix.mpr hbegins)

end Kind

/-- The fault that a text tells of. -/
def ofText? (text : List Char) : Option Fault :=
  (kinds.find? fun kind => kind.opening.toList.isPrefixOf text).map fun kind =>
    kind.read (behind kind.opening text)

/-- What stands behind the opening of a text. -/
def details : Fault → String
  | unknownInstruction word => hex 4 word.toNat ++ " was decoded"
  | addressOutOfBounds address => hex 3 address
  | programTooLarge size capacity =>
      decimal size ++ (" bytes but only " ++ (decimal capacity ++ " bytes are available"))
  | programInReservedRegion address => hex 3 address ++ ", inside the reserved region"
  | fontOutOfBounds address => hex 3 address
  | invalidKey key => hex 0 key.toNat ++ " was specified"
  | stackFull | stackEmpty | halted => ""

theorem message_eq (fault : Fault) : fault.message = fault.kind.opening ++ fault.details := by
  cases fault with
  | unknownInstruction word => exact String.append_assoc ..
  | programTooLarge size capacity =>
    exact (String.append_assoc ..).trans
      ((String.append_assoc ..).trans (String.append_assoc ..))
  | programInReservedRegion address => exact String.append_assoc ..
  | invalidKey key => exact String.append_assoc ..
  | addressOutOfBounds address | fontOutOfBounds address => rfl
  | stackFull | stackEmpty | halted => exact (String.append_empty ..).symm

theorem readHex_hex_append (width n : Nat) {behind : String} {rest : List Char}
    (hends : Ends (behind.toList ++ rest)) :
    (readHex ((hex width n ++ behind).toList ++ rest)).1 = n := by
  rw [String.toList_append, List.append_assoc, readHex_hex width n hends]

/-- The numbers of a fault are read back from behind the opening. -/
theorem read_details (fault : Fault) {rest : List Char} (hrest : Ends rest) :
    fault.kind.read (fault.details.toList ++ rest) = fault := by
  cases fault with
  | unknownInstruction word =>
    have hends : Ends (" was decoded".toList ++ rest) := (ends_cons ..).mpr rfl
    show Fault.unknownInstruction (.ofNat (readHex _).1) = _
    rw [details, readHex_hex_append _ _ hends, UInt16.ofNat_toNat]
  | addressOutOfBounds address =>
    show Fault.addressOutOfBounds (readHex _).1 = _
    rw [details, readHex_hex _ _ hrest]
  | programTooLarge size capacity =>
    have hfirst : Ends (" bytes but only ".toList ++
        ((decimal capacity).toList ++ (" bytes are available".toList ++ rest))) :=
      (ends_cons ..).mpr rfl
    have hsecond : Ends (" bytes are available".toList ++ rest) := (ends_cons ..).mpr rfl
    show Fault.programTooLarge (readDecimal _).1
      (readDecimal (behind " bytes but only " (readDecimal _).2)).1 = _
    simp only [details, String.toList_append, List.append_assoc, readDecimal_decimal _ hfirst,
      behind_append, readDecimal_decimal _ hsecond]
  | programInReservedRegion address =>
    have hends : Ends (", inside the reserved region".toList ++ rest) := (ends_cons ..).mpr rfl
    show Fault.programInReservedRegion (readHex _).1 = _
    rw [details, readHex_hex_append _ _ hends]
  | fontOutOfBounds address =>
    show Fault.fontOutOfBounds (readHex _).1 = _
    rw [details, readHex_hex _ _ hrest]
  | invalidKey key =>
    have hends : Ends (" was specified".toList ++ rest) := (ends_cons ..).mpr rfl
    show Fault.invalidKey (.ofNat (readHex _).1) = _
    rw [details, readHex_hex_append _ _ hends, UInt8.ofNat_toNat]
  | stackFull | stackEmpty | halted => rfl

/-- The kind with whose opening a text starts is found, whatever follows the opening. -/
theorem find?_opening (kind : Kind) (rest : List Char) :
    (kinds.find? fun other =>
      other.opening.toList.isPrefixOf (kind.opening.toList ++ rest)) = some kind := by
  have hopening : kind.opening.toList <+: kind.opening.toList ++ rest := List.prefix_append _ _
  cases hfound : kinds.find? fun other =>
      other.opening.toList.isPrefixOf (kind.opening.toList ++ rest) with
  | none =>
    have hnone := List.find?_eq_none.mp hfound kind (mem_kinds kind)
    exact absurd (List.isPrefixOf_iff_prefix.mpr hopening) hnone
  | some other =>
    have hsome := List.find?_some hfound
    have hother := List.isPrefixOf_iff_prefix.mp hsome
    -- of two openings of one text, one is the beginning of the other
    rcases List.prefix_or_prefix_of_prefix hother hopening with hbegins | hbegins
    · rw [Kind.eq_of_opening_prefix hbegins]
    · rw [Kind.eq_of_opening_prefix hbegins]

/-- A fault is read back from its text, whatever follows it that continues no numeral. -/
theorem ofText?_message (fault : Fault) {rest : List Char} (hrest : Ends rest) :
    ofText? (fault.message.toList ++ rest) = some fault := by
  rw [message_eq, String.toList_append, List.append_assoc, ofText?, find?_opening, Option.map_some,
    behind_append, read_details fault hrest]

end Fault

namespace Incident

open Numeral

/-- The word and the address that a place tells of. -/
def readPlace (text : List Char) : Option UInt16 × UInt16 :=
  if "at ".toList.isPrefixOf text then (none, .ofNat (readHex (behind "at " text)).1)
  else
    let (word, rest) := readHex (behind "instruction " text)
    (some (.ofNat word), .ofNat (readHex (behind " at " rest)).1)

/-- The incident that a text tells of. -/
def ofText? (text : List Char) : Option Incident :=
  (Fault.ofText? text).map fun fault =>
    let (word, address) := readPlace (behind " (" (behind fault.message text))
    ⟨fault, address, word⟩

/-- Word and address are read back from the place of an incident. -/
theorem readPlace_place (incident : Incident) {rest : List Char} (hrest : Ends rest) :
    readPlace (incident.place.toList ++ rest) = (incident.word, incident.address) := by
  obtain ⟨fault, address, word⟩ := incident
  cases word with
  | none =>
    show readPlace (("at " ++ hex 3 address.toNat).toList ++ rest) = _
    have hopening := List.isPrefixOf_iff_prefix.mpr
      (List.prefix_append "at ".toList ((hex 3 address.toNat).toList ++ rest))
    rw [String.toList_append, List.append_assoc, readPlace, if_pos hopening, behind_append,
      readHex_hex _ _ hrest, UInt16.ofNat_toNat]
  | some word =>
    have hends : Ends (" at ".toList ++ ((hex 3 address.toNat).toList ++ rest)) :=
      (ends_cons ..).mpr rfl
    show readPlace (("instruction " ++ hex 4 word.toNat ++ " at " ++ hex 3 address.toNat).toList
      ++ rest) = _
    simp only [String.toList_append, List.append_assoc]
    rw [readPlace, if_neg nofun, behind_append]
    simp only [readHex_hex _ _ hends, behind_append, readHex_hex _ _ hrest, UInt16.ofNat_toNat]

/-- An incident is read back from its text. -/
theorem ofText?_message (incident : Incident) :
    ofText? incident.message.toList = some incident := by
  have hends : Ends (" (".toList ++ (incident.place.toList ++ ")".toList)) :=
    (ends_cons ..).mpr rfl
  have hclosed : Ends ")".toList := (ends_cons ..).mpr rfl
  simp only [ofText?, message, String.toList_append, List.append_assoc,
    Fault.ofText?_message _ hends, Option.map_some, behind_append, readPlace_place incident hclosed]

example :
    let text := "stack overflow: a call was made with the stack full (instruction 0x2200 at 0x20A)"
    ofText? text.toList = some ⟨.stackFull, 0x20A, some 0x2200⟩ := by decide +kernel

end Incident

/-- Texts identify what they tell of: the texts of two faults are equal exactly if the faults are,
and the texts of two crashes exactly if their faults, their words, if any, and their addresses
are. -/
theorem texts_identify_faults :
    (∀ first second : Fault, first.message = second.message ↔ first = second) ∧
      ∀ first second : Crash, first.message = second.message ↔
        first.fault = second.fault ∧ first.word = second.word ∧ first.address = second.address := by
  constructor
  · intro first second
    refine ⟨fun hsame => ?_, congrArg Fault.message⟩
    have hread := Fault.ofText?_message first Numeral.ends_nil
    rw [hsame, Fault.ofText?_message second Numeral.ends_nil] at hread
    exact (Option.some.inj hread).symm
  · intro first second
    constructor
    · intro hsame
      have hread := Incident.ofText?_message first.toIncident
      rw [hsame, Incident.ofText?_message second.toIncident] at hread
      rw [Option.some.inj hread]
      exact ⟨rfl, rfl, rfl⟩
    · rintro ⟨hfault, hword, haddress⟩
      rw [Incident.message, Incident.message, Incident.place, Incident.place, hfault, hword,
        haddress]

end Chip8
