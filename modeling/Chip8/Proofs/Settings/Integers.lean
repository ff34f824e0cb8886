import Chip8.Proofs.Json.Numeral
import Chip8.Proofs.Settings.Document
import Mathlib.Data.List.Forall2

/-!
# Numbers in a saved document

Four values of a saved document are numbers.  A numeral in place of one of them is read exactly,
however many digits it has: it is the number of the field if it is a bare natural number below the
limit of the field, and otherwise the document is invalid.

* `IntegerField` — the four fields: their keys, their limits, and their numbers in settings.
* `IntegerField.front`, `IntegerField.back` — the saved document around the value of a field.
* `load_of_fits`, `load_of_refused` — what comes of a numeral that is the number of the field, and of
  a text that the reader of the field refuses.
* `load_integer` — numerals of every form and length in place of a value.
-/

namespace Chip8

open Json

/-- The fields of settings that are numbers. -/
inductive IntegerField where
  | speed
  | programStart
  | fontStart
  | seed
deriving DecidableEq, Repr

namespace IntegerField

open Settings

def key : IntegerField → String
  | speed => speedKey
  | programStart => programStartKey
  | fontStart => fontStartKey
  | seed => seedKey

/-- The limit below which the numbers of a field lie. -/
def limit : IntegerField → Nat
  | speed | seed => 0x10000000000000000
  | programStart | fontStart => 0x10000

/-- The number of a field; a seed may be missing. -/
def number (settings : Settings) : IntegerField → Option Nat
  | speed => some settings.speed.toNat
  | programStart => some settings.programStart.toNat
  | fontStart => some settings.fontStart.toNat
  | seed => settings.seed.map UInt64.toNat

/-- Settings with another number in one field. -/
def put (n : Nat) (settings : Settings) : IntegerField → Settings
  | speed => { settings with speed := .ofNat n }
  | programStart => { settings with programStart := .ofNat n }
  | fontStart => { settings with fontStart := .ofNat n }
  | seed => { settings with seed := some (.ofNat n) }

/-- The value of a field as it is saved. -/
def text (settings : Settings) : IntegerField → String
  | speed => Numeral.decimal settings.speed.toNat
  | programStart => Numeral.decimal settings.programStart.toNat
  | fontStart => Numeral.decimal settings.fontStart.toNat
  | seed => seedText settings.seed

/-- The place of a field among the lines that are saved. -/
def place : IntegerField → Nat
  | speed => 0
  | programStart => 1
  | fontStart => 2
  | seed => 4

/-- The saved document in front of the value of a field, and of the space before it. -/
def front (settings : Settings) (field : IntegerField) : List UInt8 :=
  objectFront 1 (settings.lines.take field.place) field.key

/-- The saved document behind the value of a field. -/
def back (settings : Settings) (field : IntegerField) : List UInt8 :=
  objectBack 1 (settings.lines.drop (field.place + 1))

section Fields

variable (settings : Settings) (field : IntegerField) {n : Nat}

theorem number_put (hfits : n < field.limit) : field.number (field.put n settings) = some n := by
  cases field with
  | speed => exact congrArg some (UInt64.toNat_ofNat_of_lt' hfits)
  | programStart => exact congrArg some (UInt16.toNat_ofNat_of_lt' hfits)
  | fontStart => exact congrArg some (UInt16.toNat_ofNat_of_lt' hfits)
  | seed => exact congrArg some (UInt64.toNat_ofNat_of_lt' hfits)

theorem number_put_of_ne {other : IntegerField} (hother : other ≠ field) :
    other.number (field.put n settings) = other.number settings := by
  cases field <;> cases other <;> first | rfl | exact absurd rfl hother

theorem dialect_put : (field.put n settings).dialect = settings.dialect := by
  cases field <;> rfl

theorem lines_eq :
    settings.lines = settings.lines.take field.place ++
      (field.key, field.text settings) :: settings.lines.drop (field.place + 1) := by
  cases field <;> rfl

/-- Only the line of a field depends on its number. -/
theorem lines_put (hfits : n < field.limit) :
    (field.put n settings).lines = settings.lines.take field.place ++
      (field.key, Numeral.decimal n) :: settings.lines.drop (field.place + 1) := by
  have hnumber := field.number_put settings hfits
  cases field with
  | speed => exact congrArg (fun n => (speedKey, Numeral.decimal n) :: _) (Option.some.inj hnumber)
  | programStart =>
    exact congrArg (fun n => _ :: (programStartKey, Numeral.decimal n) :: _)
      (Option.some.inj hnumber)
  | fontStart =>
    exact congrArg (fun n => _ :: _ :: (fontStartKey, Numeral.decimal n) :: _)
      (Option.some.inj hnumber)
  | seed =>
    exact congrArg (fun n => _ :: _ :: _ :: _ :: [(seedKey, Numeral.decimal n)])
      (Option.some.inj hnumber)

/-- The member of a field, and those around it. -/
theorem members_eq : ∃ (name : Quoted) (value : Value), name.string? = some field.key ∧
    asciiWord (quoted field.key) = name.text ∧
    settings.members = settings.members.take field.place ++
      (name, value) :: settings.members.drop (field.place + 1) := by
  cases field with
  | speed => exact ⟨_, _, string?_plain speedKey _, asciiWord_quoted _ _ (by decide), rfl⟩
  | programStart =>
    exact ⟨_, _, string?_plain programStartKey _, asciiWord_quoted _ _ (by decide), rfl⟩
  | fontStart => exact ⟨_, _, string?_plain fontStartKey _, asciiWord_quoted _ _ (by decide), rfl⟩
  | seed => exact ⟨_, _, string?_plain seedKey _, asciiWord_quoted _ _ (by decide), rfl⟩

/-! ## The reader of a field -/

theorem natural?_eq_none {form : NumberForm} {limit : Nat}
    (hbeyond : ∀ n, form.natural? = some n → limit ≤ n) :
    (Value.number form).natural? limit = none := by
  rw [Value.natural?, Option.filter_eq_none_iff]
  intro n hn
  simpa using hbeyond n hn

/-- The slot of a field refuses what is no bare natural number below its limit. -/
theorem exists_slot : ∃ slot ∈ SettingsDraft.slots, slot.key = field.key ∧
    RefusesPadded slot.read ∧
    ∀ form : NumberForm, (∀ n, form.natural? = some n → field.limit ≤ n) →
      slot.meaning (.number form) = none := by
  cases field with
  | speed =>
    refine ⟨_, List.mem_of_getElem? (i := 0) rfl, rfl,
      (refusesPadded_readNatural _).map UInt64.ofNat, fun form hbeyond => ?_⟩
    exact congrArg (Option.map UInt64.ofNat) (natural?_eq_none hbeyond)
  | programStart =>
    refine ⟨_, List.mem_of_getElem? (i := 1) rfl, rfl,
      (refusesPadded_readNatural _).map UInt16.ofNat, fun form hbeyond => ?_⟩
    exact congrArg (Option.map UInt16.ofNat) (natural?_eq_none hbeyond)
  | fontStart =>
    refine ⟨_, List.mem_of_getElem? (i := 2) rfl, rfl,
      (refusesPadded_readNatural _).map UInt16.ofNat, fun form hbeyond => ?_⟩
    exact congrArg (Option.map UInt16.ofNat) (natural?_eq_none hbeyond)
  | seed =>
    refine ⟨_, List.mem_of_getElem? (i := 4) rfl, rfl,
      ((refusesPadded_readNatural _).map UInt64.ofNat).optional, fun form hbeyond => ?_⟩
    exact congrArg (Option.map some ∘ Option.map UInt64.ofNat) (natural?_eq_none hbeyond)

/-! ## Loading -/

/-- The saved document with the value of a field taken out. -/
theorem saveBytes_eq :
    settings.saveBytes =
      field.front settings ++ (0x20 :: (asciiWord (field.text settings) ++ field.back settings)) :=
  (congrArg (fun lines => asciiWord (objectText 1 lines)) (field.lines_eq settings)).trans
    (asciiWord_objectText ..)

theorem endsNumber_back : EndsNumber (field.back settings) := endsNumber_objectBack 1 _

/-- The name of the field is the last thing in front of its value. -/
theorem key_suffix_front :
    asciiWord (quoted field.key ++ ": ") <:+ field.front settings ++ [0x20] := by
  have hkey : asciiWord (quoted field.key) ++ [colon] <:+ field.front settings :=
    (List.suffix_append _ _).trans ((List.suffix_append _ _).trans
      ((List.suffix_append _ _).trans (List.suffix_append _ _)))
  have hcolon : asciiWord ": " = [colon] ++ [0x20] := rfl
  obtain ⟨before, hbefore⟩ := hkey
  rw [asciiWord_append, hcolon, ← hbefore]
  exact ⟨before, by simp only [List.append_assoc]⟩

/-- A numeral that is the number of the field makes the document of the settings with that number. -/
theorem load_of_fits {form : NumberForm} (hnatural : form.natural? = some n)
    (hfits : n < field.limit) :
    load (field.front settings ++ (0x20 :: (form.text ++ field.back settings))) =
      .ok (field.put n settings) := by
  have hnumeral : asciiWord (Numeral.decimal n) = form.text := by
    rw [NumberForm.text_eq_ofNat hnatural, NumberForm.text_ofNat, asciiWord,
      Numeral.toList_decimal]
  have hsaved : (field.put n settings).saveBytes =
      field.front settings ++ (0x20 :: (form.text ++ field.back settings)) := by
    rw [← hnumeral]
    exact (congrArg (fun lines => asciiWord (objectText 1 lines))
      (field.lines_put settings hfits)).trans (asciiWord_objectText ..)
  have hload := (load_eq_ok_iff (spaced_saveBytes (field.put n settings)) blank_nil).mpr
    (writtenIn_members (field.put n settings))
  rwa [List.append_nil, hsaved] at hload

/-- A text that the reader of the field refuses makes the document invalid, whatever is behind
it. -/
theorem load_of_refused {slot : Slot SettingsDraft} (hslot : slot ∈ SettingsDraft.slots)
    (hkey : slot.key = field.key) {tail : List UInt8}
    (hread : slot.read tail = .error .invalid) :
    load (field.front settings ++ tail) = .error .invalid := by
  obtain ⟨name, value, hname, htext, hmembers⟩ := field.members_eq settings
  have hmeaning := SettingsDraft.meaning_object_iff.mpr (writtenIn_members settings)
  rw [hmembers] at hmeaning
  obtain ⟨filled, hfill, -⟩ := Option.bind_eq_some_iff.mp hmeaning
  have hspaced := spaced_objectFront 1
    (List.forall₂_take field.place settings.lines_members) htext
  have hrecord := readRecord_refused (find?_key SettingsDraft.complete_slots hslot)
    (hname.trans (congrArg some hkey.symm)) hfill hspaced hread
  have hrecord : readRecord SettingsDraft.fields {} (field.front settings ++ tail) =
      .error .invalid := hrecord
  rw [load, SettingsDraft.read, readComplete, hrecord]
  rfl

end Fields

end IntegerField

open IntegerField

/-- Numerals of any length in place of the value of a number in a saved document.  Digits without
superfluous zeros load as the number that they write if it lies below the limit of the field, and
all else stays as it was; if it does not, the document is invalid.  So it is with every numeral that
has a sign, a fraction or an exponent, or superfluous zeros in front. -/
theorem load_integer (settings : Settings) (field : IntegerField) :
    ∃ front back,
      settings.saveBytes = front ++ (asciiWord (field.text settings) ++ back) ∧
      asciiWord (Settings.quoted field.key ++ ": ") <:+ front ∧
      (∀ (form : NumberForm) (n : Nat), form.natural? = some n → n < field.limit →
        ∃ loaded, Settings.load (front ++ (form.text ++ back)) = .ok loaded ∧
          field.number loaded = some n ∧
          (∀ other, other ≠ field → other.number loaded = other.number settings) ∧
          loaded.dialect = settings.dialect) ∧
      (∀ form : NumberForm, (∀ n, form.natural? = some n → field.limit ≤ n) →
        Settings.load (front ++ (form.text ++ back)) = .error .invalid) ∧
      ∀ (zeros : Nat) (form : NumberForm),
        Settings.load (front ++ (form.padded (zeros + 1) ++ back)) = .error .invalid := by
  have hsplit : ∀ numeral : List UInt8,
      field.front settings ++ [0x20] ++ (numeral ++ field.back settings) =
        field.front settings ++ (0x20 :: (numeral ++ field.back settings)) := fun numeral =>
    List.append_assoc ..
  have hends := field.endsNumber_back settings
  have hblank : Blank [0x20] := List.forall_mem_singleton.mpr rfl
  obtain ⟨slot, hslot, hkey, hpadded, hmeaning⟩ := field.exists_slot
  refine ⟨field.front settings ++ [0x20], field.back settings, ?_, field.key_suffix_front settings,
    fun form n hnatural hfits => ?_, fun form hbeyond => ?_, fun zeros form => ?_⟩
  · rw [hsplit]
    exact field.saveBytes_eq settings
  · rw [hsplit]
    exact ⟨_, field.load_of_fits settings hnatural hfits, field.number_put settings hfits,
      fun _ hother => field.number_put_of_ne settings hother, field.dialect_put settings⟩
  · -- the number is a value like any other, but means nothing here
    have hspaced : Spaced (Value.number form).tokens ([0x20] ++ (form.text ++ [])) :=
      .cons hblank .nil
    have hread := slot.decodes.value hspaced hends
    rw [hmeaning form hbeyond, List.append_nil, List.append_assoc] at hread
    rw [hsplit]
    exact field.load_of_refused settings hslot hkey hread
  · have hread := hpadded zeros form [0x20] _ hblank hends
    rw [hsplit]
    exact field.load_of_refused settings hslot hkey hread

/-- The place of the program: the last address that there is a word for, one more, minus zero, a
superfluous zero, and an exponent. -/
theorem load_integer_program_start :
    let settings : Settings := { dialect := .cosmacVip, seed := some 0xFFFFFFFFFFFFFFFF }
    ∃ front back,
      settings.saveBytes = front ++ (asciiWord "512" ++ back) ∧
      (∃ loaded, Settings.load (front ++ (asciiWord "65535" ++ back)) = .ok loaded ∧
        programStart.number loaded = some 65535 ∧
        seed.number loaded = some 0xFFFFFFFFFFFFFFFF) ∧
      Settings.load (front ++ (asciiWord "65536" ++ back)) = .error .invalid ∧
      Settings.load (front ++ (asciiWord "-0" ++ back)) = .error .invalid ∧
      Settings.load (front ++ (asciiWord "0512" ++ back)) = .error .invalid ∧
      Settings.load (front ++ (asciiWord "5e2" ++ back)) = .error .invalid := by
  intro settings
  obtain ⟨front, back, hsaved, -, hfits, hbeyond, hpadded⟩ := load_integer settings programStart
  have hbare : ∀ (whole : Figures) (htrimmed : whole.first.val = 0 → whole.rest = []),
      (NumberForm.bare whole htrimmed).natural? = some whole.value := fun _ _ => rfl
  have htext : programStart.text settings = "512" := by decide +kernel
  rw [htext] at hsaved
  refine ⟨front, back, hsaved, ?_, ?_, ?_, ?_, ?_⟩
  · obtain ⟨loaded, hload, hnumber, hothers, -⟩ :=
      hfits (.bare ⟨6, [5, 5, 3, 5]⟩ (by decide)) 65535 (hbare _ _) (by decide)
    exact ⟨loaded, hload, hnumber, hothers seed (by decide)⟩
  · refine hbeyond (.bare ⟨6, [5, 5, 3, 6]⟩ (by decide)) fun n hn => ?_
    obtain rfl := Option.some.inj ((hbare _ _).symm.trans hn)
    decide
  · exact hbeyond ⟨true, ⟨0, []⟩, by decide, none, none⟩ nofun
  · exact hpadded 0 (.bare ⟨5, [1, 2]⟩ (by decide))
  · exact hbeyond ⟨false, ⟨5, []⟩, by decide, none, some ⟨false, none, ⟨2, []⟩⟩⟩ nofun

end Chip8
