import Chip8.Proofs.Json.Record
import Chip8.Settings.Load

/-!
# Which documents load

A written object loads as some settings if the values of its known members say so and every known
member stands there as often as it may.

* `Dialect.Written`, `Settings.WrittenIn` — the values that mean a dialect, and the members that
  mean settings.
* `DialectDraft.meaning_eq_some_iff`, `SettingsDraft.meaning_object_iff` — the readers find the same
  meaning.
* `Settings.WrittenIn.perm` — other members and the order of members do not matter.
* `Settings.load_written_object` — the documents that load, and what is made of the others.
-/

namespace Chip8

open Json

/-! ## The dialect -/

namespace DialectDraft

def slots : List (Slot DialectDraft) :=
  [.of Settings.blockMovesIndexKey (·.blockMovesIndex)
    (fun draft value => { draft with blockMovesIndex := some value }) decodes_readBool
    fun _ _ => rfl,
   .of Settings.logicClearsFlagKey (·.logicClearsFlag)
    (fun draft value => { draft with logicClearsFlag := some value }) decodes_readBool
    fun _ _ => rfl,
   .of Settings.shiftReadsSecondKey (·.shiftReadsSecond)
    (fun draft value => { draft with shiftReadsSecond := some value }) decodes_readBool
    fun _ _ => rfl,
   .of Settings.jumpReadsNamedKey (·.jumpReadsNamed)
    (fun draft value => { draft with jumpReadsNamed := some value }) decodes_readBool
    fun _ _ => rfl,
   .of Settings.edgeKey (·.edge)
    (fun draft value => { draft with edge := some value }) (decodes_readChoice Edge.ofName?)
    fun _ _ => rfl]

theorem complete_slots : Complete slots where
  apart := by
    simp only [slots, List.pairwise_cons, List.forall_mem_cons, List.not_mem_nil, false_implies,
      implies_true, List.Pairwise.nil, and_true]
    refine ⟨⟨?_, ?_, ?_, ?_⟩, ⟨?_, ?_, ?_⟩, ⟨?_, ?_⟩, ?_⟩
    all_goals exact ⟨by decide, fun _ _ => rfl, fun _ _ => rfl⟩
  ext := by
    rintro ⟨block, logic, shift, jump, edge⟩ other hkept
    simp only [slots, List.forall_mem_cons, List.not_mem_nil, false_implies, implies_true,
      and_true] at hkept
    obtain ⟨rfl, rfl, rfl, rfl, rfl⟩ := hkept
    rfl

/-- The draft that lacks nothing of a dialect. -/
def ofDialect (dialect : Dialect) : DialectDraft where
  blockMovesIndex := some dialect.blockMovesIndex
  logicClearsFlag := some dialect.logicClearsFlag
  shiftReadsSecond := some dialect.shiftReadsSecond
  jumpReadsNamed := some dialect.jumpReadsNamed
  edge := some dialect.edge

theorem finish_eq_some_iff {draft : DialectDraft} {dialect : Dialect} :
    draft.finish = some dialect ↔ draft = ofDialect dialect := by
  obtain ⟨block, logic, shift, jump, edge⟩ := draft
  constructor
  · intro hfinish
    simp only [finish, bind, Option.bind_eq_some_iff] at hfinish
    obtain ⟨_, rfl, _, rfl, _, rfl, _, rfl, _, rfl, hdialect⟩ := hfinish
    cases hdialect
    rfl
  · intro hdraft
    rw [hdraft]
    rfl

end DialectDraft

namespace Dialect

/-- The members of an object that means a dialect. -/
structure WrittenIn (dialect : Dialect) (members : List (Quoted × Value)) : Prop where
  named : ∀ member ∈ members, member.1.Denotes
  blockMovesIndex : Sole Settings.blockMovesIndexKey members
    fun value => value.truth? = some dialect.blockMovesIndex
  logicClearsFlag : Sole Settings.logicClearsFlagKey members
    fun value => value.truth? = some dialect.logicClearsFlag
  shiftReadsSecond : Sole Settings.shiftReadsSecondKey members
    fun value => value.truth? = some dialect.shiftReadsSecond
  jumpReadsNamed : Sole Settings.jumpReadsNamedKey members
    fun value => value.truth? = some dialect.jumpReadsNamed
  edge : Sole Settings.edgeKey members
    fun value => value.choice? Edge.ofName? = some dialect.edge

/-- The values that mean a dialect: an object, or an array of the five choices in order. -/
inductive Written (dialect : Dialect) : Value → Prop
  | object {members : List (Quoted × Value)} (hmembers : dialect.WrittenIn members) :
      Written dialect (.object members)
  | array {block logic shift jump edge : Value}
      (hblock : block.truth? = some dialect.blockMovesIndex)
      (hlogic : logic.truth? = some dialect.logicClearsFlag)
      (hshift : shift.truth? = some dialect.shiftReadsSecond)
      (hjump : jump.truth? = some dialect.jumpReadsNamed)
      (hedge : edge.choice? Edge.ofName? = some dialect.edge) :
      Written dialect (.array [block, logic, shift, jump, edge])

end Dialect

namespace DialectDraft

theorem fillMembers_iff_writtenIn {dialect : Dialect} {members : List (Quoted × Value)} :
    fillMembers slots {} members = some (ofDialect dialect) ↔ dialect.WrittenIn members := by
  rw [fillMembers_eq_some_iff complete_slots]
  simp only [slots, List.forall_mem_cons, List.not_mem_nil, false_implies, implies_true, and_true]
  constructor
  · rintro ⟨hkeys, hblock, hlogic, hshift, hjump, hedge⟩
    exact {
      named := hkeys
      blockMovesIndex := (Slot.after_none_eq_some_iff _).mp hblock
      logicClearsFlag := (Slot.after_none_eq_some_iff _).mp hlogic
      shiftReadsSecond := (Slot.after_none_eq_some_iff _).mp hshift
      jumpReadsNamed := (Slot.after_none_eq_some_iff _).mp hjump
      edge := (Slot.after_none_eq_some_iff _).mp hedge }
  · intro hwritten
    refine ⟨hwritten.named, ?_, ?_, ?_, ?_, ?_⟩
    · exact (Slot.after_none_eq_some_iff _).mpr hwritten.blockMovesIndex
    · exact (Slot.after_none_eq_some_iff _).mpr hwritten.logicClearsFlag
    · exact (Slot.after_none_eq_some_iff _).mpr hwritten.shiftReadsSecond
    · exact (Slot.after_none_eq_some_iff _).mpr hwritten.jumpReadsNamed
    · exact (Slot.after_none_eq_some_iff _).mpr hwritten.edge

theorem fillItems_iff_written {dialect : Dialect} {items : List Value} :
    fillItems slots {} items = some (ofDialect dialect) ↔ dialect.Written (.array items) := by
  constructor
  · intro hfill
    match items, length_of_fillItems hfill with
    | [block, logic, shift, jump, edge], _ =>
      simp only [slots, fillItems, Slot.fill, Slot.of, bind, Option.bind_eq_some_iff,
        Option.map_eq_some_iff] at hfill
      obtain ⟨_, ⟨_, hblock, rfl⟩, _, ⟨_, hlogic, rfl⟩, _, ⟨_, hshift, rfl⟩, _, ⟨_, hjump, rfl⟩,
        _, ⟨_, hedge, rfl⟩, hdraft⟩ := hfill
      obtain ⟨⟩ := dialect
      cases hdraft
      exact .array hblock hlogic hshift hjump hedge
  · intro hwritten
    cases hwritten with
    | array hblock hlogic hshift hjump hedge =>
      simp only [slots, fillItems, Slot.fill, Slot.of, hblock, hlogic, hshift, hjump, hedge]
      rfl

/-- What a value means as a dialect. -/
def meaning (value : Value) : Option Dialect := recordMeaning slots {} finish value

theorem decodes_read : Decodes read meaning := decodes_readComplete slots {} finish

theorem meaning_eq_some_iff {dialect : Dialect} {value : Value} :
    meaning value = some dialect ↔ dialect.Written value := by
  have hdraft : meaning value = some dialect ↔
      recordDraft slots {} value = some (ofDialect dialect) := by
    rw [meaning, recordMeaning, Option.bind_eq_some_iff]
    constructor
    · rintro ⟨draft, hdraft, hfinish⟩
      rw [hdraft, finish_eq_some_iff.mp hfinish]
    · exact fun hdraft => ⟨_, hdraft, finish_eq_some_iff.mpr rfl⟩
  rw [hdraft]
  cases value with
  | object members =>
    refine fillMembers_iff_writtenIn.trans ⟨.object, fun hwritten => ?_⟩
    cases hwritten with
    | object hmembers => exact hmembers
  | array items => exact fillItems_iff_written
  | _ =>
    refine iff_of_false (fun hdraft => ?_) fun hwritten => ?_
    · cases hdraft
    · cases hwritten

end DialectDraft

/-! ## The settings -/

namespace SettingsDraft

def slots : List (Slot SettingsDraft) :=
  [.of Settings.speedKey (·.speed)
    (fun draft value => { draft with speed := some value }) decodes_readUInt64
    fun _ _ => rfl,
   .of Settings.programStartKey (·.programStart)
    (fun draft value => { draft with programStart := some value }) decodes_readUInt16
    fun _ _ => rfl,
   .of Settings.fontStartKey (·.fontStart)
    (fun draft value => { draft with fontStart := some value }) decodes_readUInt16
    fun _ _ => rfl,
   .of Settings.dialectKey (·.dialect)
    (fun draft value => { draft with dialect := some value }) DialectDraft.decodes_read
    fun _ _ => rfl,
   .of Settings.seedKey (·.seed)
    (fun draft value => { draft with seed := some value }) decodes_readUInt64.optional
    fun _ _ => rfl]

theorem complete_slots : Complete slots where
  apart := by
    simp only [slots, List.pairwise_cons, List.forall_mem_cons, List.not_mem_nil, false_implies,
      implies_true, List.Pairwise.nil, and_true]
    refine ⟨⟨?_, ?_, ?_, ?_⟩, ⟨?_, ?_, ?_⟩, ⟨?_, ?_⟩, ?_⟩
    all_goals exact ⟨by decide, fun _ _ => rfl, fun _ _ => rfl⟩
  ext := by
    rintro ⟨speed, programStart, fontStart, dialect, seed⟩ other hkept
    simp only [slots, List.forall_mem_cons, List.not_mem_nil, false_implies, implies_true,
      and_true] at hkept
    obtain ⟨rfl, rfl, rfl, rfl, rfl⟩ := hkept
    rfl

/-- The draft that lacks nothing of settings, but may have read no seed. -/
def ofSettings (settings : Settings) (seed : Option (Option UInt64)) : SettingsDraft where
  speed := some settings.speed
  programStart := some settings.programStart
  fontStart := some settings.fontStart
  dialect := some settings.dialect
  seed := seed

theorem finish_eq_some_iff {draft : SettingsDraft} {settings : Settings} :
    draft.finish = some settings ↔
      draft = ofSettings settings draft.seed ∧ draft.seed.getD none = settings.seed := by
  obtain ⟨speed, programStart, fontStart, dialect, seed⟩ := draft
  constructor
  · intro hfinish
    simp only [finish, bind, Option.bind_eq_some_iff] at hfinish
    obtain ⟨_, rfl, _, rfl, _, rfl, _, rfl, hsettings⟩ := hfinish
    cases hsettings
    exact ⟨rfl, rfl⟩
  · rintro ⟨hdraft, hseed⟩
    rw [hdraft]
    show some { settings with seed := seed.getD none } = some settings
    rw [show seed.getD none = settings.seed from hseed]

end SettingsDraft

namespace Settings

/-- The members that every object has which means settings. -/
structure RequiredIn (settings : Settings) (members : List (Quoted × Value)) : Prop where
  named : ∀ member ∈ members, member.1.Denotes
  speed : Sole speedKey members fun value => value.uint64? = some settings.speed
  programStart : Sole programStartKey members
    fun value => value.uint16? = some settings.programStart
  fontStart : Sole fontStartKey members fun value => value.uint16? = some settings.fontStart
  dialect : Sole dialectKey members fun value => settings.dialect.Written value

/-- The members of an object that means settings: a seed may be missing. -/
structure WrittenIn (settings : Settings) (members : List (Quoted × Value)) : Prop
    extends RequiredIn settings members where
  seed : (values seedKey members = [] ∧ settings.seed = none) ∨
    Sole seedKey members fun value => value.optional? Value.uint64? = some settings.seed

end Settings

namespace SettingsDraft

/-- What has been read of the seed in some members. -/
def SeedIn (members : List (Quoted × Value)) : Option (Option UInt64) → Prop
  | none => values Settings.seedKey members = []
  | some seed => Sole Settings.seedKey members
      fun value => value.optional? Value.uint64? = some seed

theorem fillMembers_iff_requiredIn {settings : Settings} {seed : Option (Option UInt64)}
    {members : List (Quoted × Value)} :
    fillMembers slots {} members = some (ofSettings settings seed) ↔
      settings.RequiredIn members ∧ SeedIn members seed := by
  rw [fillMembers_eq_some_iff complete_slots]
  simp only [slots, List.forall_mem_cons, List.not_mem_nil, false_implies, implies_true, and_true]
  constructor
  · rintro ⟨hkeys, hspeed, hprogram, hfont, hdialect, hseed⟩
    obtain ⟨value, hvalue, hmeaning⟩ := (Slot.after_none_eq_some_iff _).mp hdialect
    refine ⟨{
      named := hkeys
      speed := (Slot.after_none_eq_some_iff _).mp hspeed
      programStart := (Slot.after_none_eq_some_iff _).mp hprogram
      fontStart := (Slot.after_none_eq_some_iff _).mp hfont
      dialect := ⟨value, hvalue, DialectDraft.meaning_eq_some_iff.mp hmeaning⟩ }, ?_⟩
    cases seed with
    | none => exact (Slot.after_none_eq_none_iff _).mp hseed
    | some seed => exact (Slot.after_none_eq_some_iff _).mp hseed
  · rintro ⟨hrequired, hseed⟩
    obtain ⟨value, hvalue, hmeaning⟩ := hrequired.dialect
    refine ⟨hrequired.named, ?_, ?_, ?_, ?_, ?_⟩
    · exact (Slot.after_none_eq_some_iff _).mpr hrequired.speed
    · exact (Slot.after_none_eq_some_iff _).mpr hrequired.programStart
    · exact (Slot.after_none_eq_some_iff _).mpr hrequired.fontStart
    · exact (Slot.after_none_eq_some_iff _).mpr
        ⟨value, hvalue, DialectDraft.meaning_eq_some_iff.mpr hmeaning⟩
    · cases seed with
      | none => exact (Slot.after_none_eq_none_iff _).mpr hseed
      | some seed => exact (Slot.after_none_eq_some_iff _).mpr hseed

def meaning (value : Value) : Option Settings := recordMeaning slots {} finish value

theorem meaning_object_iff {settings : Settings} {members : List (Quoted × Value)} :
    meaning (.object members) = some settings ↔ settings.WrittenIn members := by
  rw [meaning, recordMeaning, Option.bind_eq_some_iff]
  constructor
  · rintro ⟨draft, hdraft, hfinish⟩
    obtain ⟨hfull, hmissing⟩ := finish_eq_some_iff.mp hfinish
    generalize draft.seed = seed at hfull hmissing
    obtain ⟨hrequired, hseed⟩ := fillMembers_iff_requiredIn.mp (hdraft.trans (congrArg some hfull))
    refine ⟨hrequired, ?_⟩
    cases seed with
    | none => exact .inl ⟨hseed, hmissing.symm⟩
    | some seed =>
      obtain rfl : seed = settings.seed := hmissing
      exact .inr hseed
  · rintro ⟨hrequired, hseed⟩
    rcases hseed with ⟨hnone, hmissing⟩ | hsome
    · exact ⟨ofSettings settings none, fillMembers_iff_requiredIn.mpr ⟨hrequired, hnone⟩,
        finish_eq_some_iff.mpr ⟨rfl, hmissing.symm⟩⟩
    · exact ⟨ofSettings settings (some settings.seed),
        fillMembers_iff_requiredIn.mpr ⟨hrequired, hsome⟩, finish_eq_some_iff.mpr ⟨rfl, rfl⟩⟩

end SettingsDraft

/-! ## Order -/

namespace Dialect

/-- The keys that a dialect is read from. -/
def keys : List String :=
  [Settings.blockMovesIndexKey, Settings.logicClearsFlagKey, Settings.shiftReadsSecondKey,
    Settings.jumpReadsNamedKey, Settings.edgeKey]

theorem WrittenIn.perm {dialect : Dialect} {members others : List (Quoted × Value)}
    (hwritten : dialect.WrittenIn members) (hkeys : ∀ member ∈ others, member.1.Denotes)
    (hperm : (members.filter (among keys)).Perm (others.filter (among keys))) :
    dialect.WrittenIn others where
  named := hkeys
  blockMovesIndex := hwritten.blockMovesIndex.perm (by simp [keys]) hperm
  logicClearsFlag := hwritten.logicClearsFlag.perm (by simp [keys]) hperm
  shiftReadsSecond := hwritten.shiftReadsSecond.perm (by simp [keys]) hperm
  jumpReadsNamed := hwritten.jumpReadsNamed.perm (by simp [keys]) hperm
  edge := hwritten.edge.perm (by simp [keys]) hperm

end Dialect

namespace Settings

/-- The keys that settings are read from. -/
def keys : List String := [speedKey, programStartKey, fontStartKey, dialectKey, seedKey]

/-- Neither other members nor the order of the members decide what members mean. -/
theorem WrittenIn.perm {settings : Settings} {members others : List (Quoted × Value)}
    (hwritten : settings.WrittenIn members) (hkeys : ∀ member ∈ others, member.1.Denotes)
    (hperm : (members.filter (among keys)).Perm (others.filter (among keys))) :
    settings.WrittenIn others where
  named := hkeys
  speed := hwritten.speed.perm (by simp [keys]) hperm
  programStart := hwritten.programStart.perm (by simp [keys]) hperm
  fontStart := hwritten.fontStart.perm (by simp [keys]) hperm
  dialect := hwritten.dialect.perm (by simp [keys]) hperm
  seed := by
    refine hwritten.seed.imp (fun hmissing => ⟨?_, hmissing.2⟩) (·.perm (by simp [keys]) hperm)
    have hvalues : (values seedKey members).Perm (values seedKey others) :=
      values_perm (by simp [keys]) hperm
    rw [hmissing.1] at hvalues
    exact hvalues.nil_eq.symm

/-! ## Documents -/

section Loading

variable {members : List (Quoted × Value)} {text : List UInt8}

theorem load_append (htext : Spaced (Value.object members).tokens text) (tail : List UInt8) :
    load (text ++ tail) =
      match SettingsDraft.meaning (.object members) with
      | some settings => (atEnd tail).map fun _ => settings
      | none => .error .invalid := by
  rw [load, SettingsDraft.read, SettingsDraft.meaning]
  show (readComplete (SettingsDraft.slots.map Slot.field) {} SettingsDraft.finish _ >>= _) = _
  rw [readComplete_object _ _ _ htext]
  cases recordMeaning SettingsDraft.slots {} SettingsDraft.finish (.object members) with
  | none => rfl
  | some settings =>
    show (atEnd tail >>= fun _ => Except.ok settings) = _
    cases atEnd tail <;> rfl

theorem atEnd_of_blank {tail : List UInt8} (hblank : Blank tail) : atEnd tail = .ok () := by
  rw [atEnd, skipBlanks_eq_nil_iff.mpr hblank]
  rfl

theorem atEnd_of_not_blank {tail : List UInt8} (hblank : ¬ Blank tail) :
    atEnd tail = .error .invalid := by
  rw [atEnd, if_neg]
  rwa [List.isEmpty_iff, skipBlanks_eq_nil_iff]

/-- A written object with blanks behind it loads as the settings that its members mean. -/
theorem load_eq_ok_iff (htext : Spaced (Value.object members).tokens text) {blanks : List UInt8}
    (hblanks : Blank blanks) {settings : Settings} :
    load (text ++ blanks) = .ok settings ↔ settings.WrittenIn members := by
  rw [load_append htext, atEnd_of_blank hblanks, ← SettingsDraft.meaning_object_iff]
  cases SettingsDraft.meaning (.object members) with
  | none => simp
  | some found => simp [Except.map]

theorem load_eq_invalid (htext : Spaced (Value.object members).tokens text) {blanks : List UInt8}
    (hblanks : Blank blanks) (hnone : ∀ settings : Settings, ¬ settings.WrittenIn members) :
    load (text ++ blanks) = .error .invalid := by
  rw [load_append htext, atEnd_of_blank hblanks]
  cases hmeaning : SettingsDraft.meaning (.object members) with
  | none => rfl
  | some found => exact absurd (SettingsDraft.meaning_object_iff.mp hmeaning) (hnone found)

/-- Two documents that differ in other members, in the order of members or in blanks load alike. -/
theorem load_eq_of_perm {others : List (Quoted × Value)} {otherText blanks otherBlanks : List UInt8}
    (htext : Spaced (Value.object members).tokens text) (hblanks : Blank blanks)
    (hother : Spaced (Value.object others).tokens otherText) (hotherBlanks : Blank otherBlanks)
    (hkeys : ∀ member ∈ members ++ others, member.1.Denotes)
    (hperm : (members.filter (among keys)).Perm (others.filter (among keys))) :
    load (otherText ++ otherBlanks) = load (text ++ blanks) := by
  have hmembers := fun member hmember => hkeys member (List.mem_append_left others hmember)
  have hothers := fun member hmember => hkeys member (List.mem_append_right members hmember)
  by_cases hwritten : ∃ settings : Settings, settings.WrittenIn members
  · obtain ⟨settings, hsettings⟩ := hwritten
    rw [(load_eq_ok_iff htext hblanks).mpr hsettings,
      (load_eq_ok_iff hother hotherBlanks).mpr (hsettings.perm hothers hperm)]
  · rw [load_eq_invalid htext hblanks fun settings hsettings => hwritten ⟨settings, hsettings⟩,
      load_eq_invalid hother hotherBlanks fun settings hsettings =>
        hwritten ⟨settings, hsettings.perm hmembers hperm.symm⟩]

end Loading

/-- A written object, with blanks behind it, loads as the settings that its members mean, and is
invalid if they mean none.  Other members, the order of members and the blanks have no part in it,
nor have they in the object of a dialect. -/
theorem load_written_object {members : List (Quoted × Value)} {text blanks : List UInt8}
    (htext : Spaced (Value.object members).tokens text) (hblanks : Blank blanks) :
    (∀ settings : Settings, load (text ++ blanks) = .ok settings ↔ settings.WrittenIn members) ∧
      ((∀ settings : Settings, ¬ settings.WrittenIn members) →
        load (text ++ blanks) = .error .invalid) ∧
      (∀ (others : List (Quoted × Value)) (otherText otherBlanks : List UInt8),
        Spaced (Value.object others).tokens otherText → Blank otherBlanks →
        (∀ member ∈ members ++ others, member.1.Denotes) →
        (members.filter (among keys)).Perm (others.filter (among keys)) →
        load (otherText ++ otherBlanks) = load (text ++ blanks)) ∧
      ∀ (dialect : Dialect) (inner others : List (Quoted × Value)),
        (∀ member ∈ inner ++ others, member.1.Denotes) →
        (inner.filter (among Dialect.keys)).Perm (others.filter (among Dialect.keys)) →
        (dialect.WrittenIn inner ↔ dialect.WrittenIn others) := by
  refine ⟨fun settings => load_eq_ok_iff htext hblanks, load_eq_invalid htext hblanks, ?_, ?_⟩
  · intro others otherText otherBlanks hother hotherBlanks hkeys hperm
    exact load_eq_of_perm htext hblanks hother hotherBlanks hkeys hperm
  · intro dialect inner others hkeys hperm
    have hinner := fun member hmember => hkeys member (List.mem_append_left others hmember)
    have hothers := fun member hmember => hkeys member (List.mem_append_right inner hmember)
    exact ⟨fun hwritten => hwritten.perm hothers hperm,
      fun hwritten => hwritten.perm hinner hperm.symm⟩

/-- Members out of order: one is unknown, one key is escaped, and the dialect is an array. -/
def jumbled : List (Quoted × Value) :=
  [(Quoted.plain "note" (by decide),
      .array [.object [], .number ⟨true, ⟨⟨1, by decide⟩, []⟩, nofun, none, none⟩]),
   (Quoted.plain "quirks" (by decide),
      .array [.truth true, .truth false, .truth true, .truth false,
        .object [(Quoted.plain "Wrap" (by decide), .null)]]),
   (.unit ⟨.ofNat 0, false⟩ ⟨.ofNat 0, false⟩ ⟨.ofNat 6, false⟩ ⟨.ofNat 6, false⟩ ::
        Quoted.plain "ont_start_address" (by decide),
      .number ⟨false, ⟨⟨0, by decide⟩, []⟩, fun _ => rfl, none, none⟩),
   (Quoted.plain "processor_speed_hertz" (by decide),
      .number ⟨false, ⟨⟨6, by decide⟩, [⟨0, by decide⟩]⟩, nofun, none, none⟩),
   (Quoted.plain "program_start_address" (by decide),
      .number ⟨false, ⟨⟨5, by decide⟩, [⟨1, by decide⟩, ⟨2, by decide⟩]⟩, nofun, none, none⟩)]

theorem load_written_object_jumbled :
    let text := asciiWord "\x7b\"note\":[\x7b\x7d,-1]," ++
      asciiWord "\"quirks\":[true,false,true,false,\x7b\"Wrap\":null\x7d]," ++
      asciiWord "\"\\u0066ont_start_address\":0," ++
      asciiWord "\"processor_speed_hertz\":60,\"program_start_address\":512\x7d"
    let settings : Settings := {
      speed := 60, dialect := { blockMovesIndex := true, shiftReadsSecond := true, edge := .wrap } }
    Spaced (Value.object jumbled).tokens text ∧ Blank [0x0A] ∧ settings.WrittenIn jumbled ∧
      load (text ++ [0x0A]) = .ok settings := by
  intro text settings
  have htext : Spaced (Value.object jumbled).tokens text := by
    have hflat : text = (Value.object jumbled).tokens.flatten := by decide +kernel
    rw [hflat]
    exact spaced_flatten _
  have hblank : Blank [0x0A] := List.forall_mem_singleton.mpr rfl
  have hkeys : jumbled.map (·.1.string?) = [some "note", some dialectKey, some fontStartKey,
      some speedKey, some programStartKey] := by
    decide +kernel
  have hnodup : (jumbled.map (·.1.string?)).Nodup := by
    rw [hkeys]
    decide
  have hwritten : settings.WrittenIn jumbled := {
    named := by decide
    speed := sole_of_nodup hnodup (List.mem_of_getElem? (i := 3) rfl) (string?_plain _ _) rfl
    programStart :=
      sole_of_nodup hnodup (List.mem_of_getElem? (i := 4) rfl) (string?_plain _ _) rfl
    fontStart := sole_of_nodup hnodup (List.mem_of_getElem? (i := 2) rfl) (by decide +kernel) rfl
    dialect := sole_of_nodup hnodup (List.mem_of_getElem? (i := 1) rfl) (string?_plain _ _)
      (.array rfl rfl rfl rfl (by decide +kernel))
    seed := .inl ⟨values_eq_nil (by rw [hkeys]; decide), rfl⟩ }
  exact ⟨htext, hblank, hwritten, ((load_written_object htext hblank).1 settings).mpr hwritten⟩

end Settings

end Chip8
