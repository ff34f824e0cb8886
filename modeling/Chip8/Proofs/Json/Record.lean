import Chip8.Json.Record
import Chip8.Proofs.Json.Scalar
import Chip8.Proofs.Json.Skip
import Mathlib.Data.List.Pairwise

/-!
# Reading written records

* `Slot` — a field whose value a draft keeps in one place, with what the value means.
* `fillMembers`, `fillItems`, `recordDraft` — the draft of a written record.
* `frontTokens`, `readMembers_front` — the first members of an object are read whatever follows them.
* `readRecord_spaced`, `decodes_readComplete` — records are read as their drafts say.
* `readRecord_refused` — a record is invalid if one of its values is refused by its reader.
* `values` — the values that stand under a key, however the key is escaped.
* `fillMembers_eq_some_iff` — which drafts come of members: no order of the members is seen, and no
  key but those of the fields.
-/

namespace Chip8
namespace Json

variable {Draft : Type}

/-- A field whose value a draft keeps in one place. -/
structure Slot (Draft : Type) where
  Kept : Type
  key : String
  kept : Draft → Option Kept
  keep : Draft → Kept → Draft
  read : Reader Kept
  meaning : Value → Option Kept
  decodes : Decodes read meaning
  kept_keep : ∀ draft value, kept (keep draft value) = some value

namespace Slot

/-- The slot under a key, for values that a reader decodes. -/
def of {Kept : Type} {read : Reader Kept} {meaning : Value → Option Kept} (key : String)
    (kept : Draft → Option Kept) (keep : Draft → Kept → Draft) (decodes : Decodes read meaning)
    (kept_keep : ∀ draft value, kept (keep draft value) = some value) : Slot Draft :=
  { Kept, key, kept, keep, read, meaning, decodes, kept_keep }

/-- The field that is read. -/
def field (slot : Slot Draft) : RecordField Draft := .of slot.key slot.kept slot.keep slot.read

/-- A draft with the meaning of a value put into a slot. -/
def fill (slot : Slot Draft) (draft : Draft) (value : Value) : Option Draft :=
  (slot.meaning value).map (slot.keep draft)

theorem decodes_fill (slot : Slot Draft) (draft : Draft) :
    Decodes (slot.field.fill draft) (slot.fill draft) :=
  slot.decodes.map (slot.keep draft)

end Slot

/-! ## Drafts of written records -/

/-- A draft with a member put in: members with other keys change nothing. -/
def fillMember (slots : List (Slot Draft)) (key : String) (draft : Draft) (value : Value) :
    Option Draft :=
  match slots.find? (·.key == key) with
  | some slot => if (slot.kept draft).isSome then none else slot.fill draft value
  | none => some draft

def fillMembers (slots : List (Slot Draft)) (draft : Draft) :
    List (Quoted × Value) → Option Draft
  | [] => some draft
  | (key, value) :: rest => do
      let draft ← fillMember slots (← key.string?) draft value
      fillMembers slots draft rest

/-- A draft with the items of an array put in, one for every slot. -/
def fillItems : List (Slot Draft) → Draft → List Value → Option Draft
  | [], draft, [] => some draft
  | slot :: slots, draft, item :: items => do fillItems slots (← slot.fill draft item) items
  | _, _, _ => none

/-- The draft of a record in either form. -/
def recordDraft (slots : List (Slot Draft)) (empty : Draft) : Value → Option Draft
  | .object members => fillMembers slots empty members
  | .array items => fillItems slots empty items
  | _ => none

/-! ## The members in front -/

/-- The tokens of the first members of an object, without its end. -/
def frontTokens (isFirst : Bool) : List (Quoted × Value) → List Token
  | [] => []
  | (key, value) :: rest =>
      separator isFirst ++ (key.text :: [colon] :: (value.tokens ++ frontTokens false rest))

theorem memberTokens_eq_append (isFirst : Bool) (members : List (Quoted × Value)) :
    memberTokens isFirst members = frontTokens isFirst members ++ [[closeBrace]] := by
  induction members generalizing isFirst with
  | nil => rfl
  | cons member members ih =>
    obtain ⟨key, value⟩ := member
    rw [memberTokens, frontTokens, ih]
    simp only [List.append_assoc, List.cons_append]

theorem fillMembers_cons (slots : List (Slot Draft)) (draft : Draft) (key : Quoted) (value : Value)
    (rest : List (Quoted × Value)) :
    fillMembers slots draft ((key, value) :: rest) =
      key.string?.bind fun key =>
        (fillMember slots key draft value).bind (fillMembers slots · rest) := rfl

theorem fillMembers_append (slots : List (Slot Draft)) (draft : Draft)
    (early late : List (Quoted × Value)) :
    fillMembers slots draft (early ++ late) =
      (fillMembers slots draft early).bind (fillMembers slots · late) := by
  induction early generalizing draft with
  | nil => rfl
  | cons member early ih =>
    obtain ⟨key, value⟩ := member
    simp only [List.cons_append, fillMembers_cons, Option.bind_assoc, ih]

/-! ## Reading -/

section Reading

variable {slots : List (Slot Draft)} {draft : Draft} {text rest : List UInt8}

theorem find?_fields (slots : List (Slot Draft)) (key : String) :
    (slots.map Slot.field).find? (·.key == key) =
      (slots.find? (·.key == key)).map Slot.field := by
  rw [List.find?_map]
  rfl

theorem readMember_spaced (slots : List (Slot Draft)) (key : String) (draft : Draft)
    {value : Value} (hspaced : Spaced ([colon] :: value.tokens) text) (hends : EndsNumber rest) :
    readMember (slots.map Slot.field) key draft (text ++ rest) =
      outcome (fillMember slots key draft value) rest := by
  obtain ⟨inner, hinner, hcolon⟩ := symbol_token hspaced rfl
  rw [readMember, find?_fields, fillMember]
  cases slots.find? (·.key == key) with
  | none =>
    simp only [Option.map_none, hcolon]
    show (skipValue (inner ++ rest) >>= _) = _
    rw [skipValue_spaced hinner hends]
    rfl
  | some slot =>
    simp only [Option.map_some, hcolon]
    show (if (slot.kept draft).isSome then _ else slot.field.fill draft _) = _
    cases (slot.kept draft).isSome with
    | true => rfl
    | false => exact (slot.decodes_fill draft).value hinner hends

/-- There are no more members than bytes. -/
theorem length_le_of_frontTokens {isFirst : Bool} {members : List (Quoted × Value)}
    (hspaced : Spaced (frontTokens isFirst members) text) : members.length ≤ text.length := by
  induction members generalizing isFirst text with
  | nil => exact Nat.zero_le _
  | cons member members ih =>
    obtain ⟨_, keyed, -, hkeyed, rfl⟩ := spaced_append_iff.mp hspaced
    obtain ⟨_, colonText, -, hcolon, rfl⟩ := spaced_cons_iff.mp hkeyed
    obtain ⟨_, pair, -, hpair, rfl⟩ := spaced_cons_iff.mp hcolon
    obtain ⟨_, last, -, hlast, rfl⟩ := spaced_append_iff.mp hpair
    have hshort := ih hlast
    simp only [List.length_append, List.length_cons]
    omega

/-- The separator in front of an entry is passed over. -/
theorem skipSeparator_spaced (isFirst : Bool) {tokens : List Token}
    (hspaced : Spaced (separator isFirst ++ tokens) text) :
    ∃ entry, Spaced tokens entry ∧ ∀ rest,
      skipSeparator isFirst (text ++ rest) = .ok (entry ++ rest) := by
  cases isFirst with
  | true => exact ⟨text, hspaced, fun rest => rfl⟩
  | false => exact symbol_token hspaced rfl

/-- No member starts as an object ends. -/
theorem memberTokens_eq_cons (isFirst : Bool) (member : Quoted × Value)
    (members : List (Quoted × Value)) :
    ∃ byte token tokens, memberTokens isFirst (member :: members) = (byte :: token) :: tokens ∧
      isBlank byte = false ∧ byte ≠ closeBrace := by
  cases isFirst <;> exact ⟨_, _, _, rfl, rfl, by decide⟩

/-- Unless an object ends here, a member is read, and then the others. -/
theorem readMembers_open {fields : List (RecordField Draft)} {fuel : Nat} {isFirst : Bool}
    {draft : Draft} (hopen : ∀ byte rest, skipBlanks text = byte :: rest → byte ≠ closeBrace) :
    readMembers fields (fuel + 1) isFirst draft text = (do
      let rest ← skipSeparator isFirst text
      let rest ← symbol quote rest
      let (key, rest) ← readString rest
      let (draft, rest) ← readMember fields key draft rest
      readMembers fields fuel false draft rest) := by
  have hsymbol := fun sign => symbol_skipBlanks sign text
  rw [readMembers]
  cases hskip : skipBlanks text with
  | nil =>
    rw [hskip] at hsymbol
    cases isFirst with
    | true =>
      show _ = (symbol quote text >>= _)
      rw [← hsymbol]
      rfl
    | false =>
      show _ = (symbol comma text >>= _)
      rw [← hsymbol]
      rfl
  | cons byte rest =>
    rw [hskip] at hsymbol
    refine (if_neg (hopen byte rest hskip)).trans ?_
    cases isFirst with
    | true =>
      show (symbol quote (byte :: rest) >>= _) = (symbol quote text >>= _)
      rw [hsymbol]
    | false =>
      show (symbol comma (byte :: rest) >>= _) = (symbol comma text >>= _)
      rw [hsymbol]

/-- What stands in front of a member's value is passed over, and the rest of the member is read. -/
theorem readMembers_key {fields : List (RecordField Draft)} {fuel : Nat} {isFirst : Bool}
    {key : Quoted} (hspaced : Spaced (separator isFirst ++ [key.text]) text) (tail : List UInt8) :
    readMembers fields (fuel + 1) isFirst draft (text ++ tail) =
      match key.string? with
      | none => .error .invalid
      | some key => readMember fields key draft tail >>= fun found =>
          readMembers fields fuel false found.1 found.2 := by
  obtain ⟨entry, hentry, hseparator⟩ := skipSeparator_spaced isFirst hspaced
  obtain ⟨behind, hbehind, hquote⟩ := skipBlanks_token hentry rfl
  obtain rfl := spaced_nil_iff.mp hbehind
  -- the reader looks for the end of the object first, and no member starts as an object ends
  have hopen : ∀ byte rest, skipBlanks (text ++ tail) = byte :: rest → byte ≠ closeBrace := by
    obtain ⟨byte, token, tokens, htokens, hbyte, hopen⟩ : ∃ byte token tokens,
        separator isFirst ++ [key.text] = (byte :: token) :: tokens ∧ isBlank byte = false ∧
          byte ≠ closeBrace := by
      cases isFirst <;> exact ⟨_, _, _, rfl, rfl, by decide⟩
    obtain ⟨_, -, hfront⟩ := skipBlanks_token (htokens ▸ hspaced) hbyte
    intro first rest hskip
    rw [hfront] at hskip
    exact (List.cons.inj hskip).1 ▸ hopen
  rw [readMembers_open hopen, hseparator]
  show (symbol quote (entry ++ tail) >>= _) = _
  rw [symbol_of_skipBlanks (hquote tail), if_pos rfl]
  show (readString (key.body ++ tail) >>= _) = _
  rw [readString_body]
  cases key.string? <;> rfl

/-- What follows some members continues no number. -/
theorem endsNumber_front {members : List (Quoted × Value)}
    (hspaced : Spaced (frontTokens false members) text) (hends : EndsNumber rest) :
    EndsNumber (text ++ rest) := by
  cases members with
  | nil =>
    obtain rfl := spaced_nil_iff.mp hspaced
    exact hends
  | cons member members => exact endsNumber_token hspaced rfl rest

/-- The first members of an object are read, and then what follows them. -/
theorem readMembers_front {members : List (Quoted × Value)} {isFirst : Bool} {fuel : Nat}
    (hspaced : Spaced (frontTokens isFirst members) text) (hends : EndsNumber rest) :
    readMembers (slots.map Slot.field) (fuel + members.length) isFirst draft (text ++ rest) =
      match fillMembers slots draft members with
      | none => .error .invalid
      | some draft =>
          readMembers (slots.map Slot.field) fuel (isFirst && members.isEmpty) draft rest := by
  induction members generalizing isFirst text draft with
  | nil =>
    obtain rfl := spaced_nil_iff.mp hspaced
    rw [List.isEmpty_nil, Bool.and_true]
    rfl
  | cons member members ih =>
    obtain ⟨key, value⟩ := member
    rw [frontTokens, List.append_cons] at hspaced
    obtain ⟨keyText, pair, hkey, hpair, rfl⟩ := spaced_append_iff.mp hspaced
    obtain ⟨inner, last, hinner, hlast, rfl⟩ := spaced_colon hpair
    rw [List.length_cons, ← Nat.add_assoc, List.append_assoc, readMembers_key hkey,
      fillMembers_cons, List.append_assoc, List.isEmpty_cons, Bool.and_false]
    cases key.string? with
    | none => rfl
    | some key =>
      show (readMember (slots.map Slot.field) key draft (inner ++ (last ++ rest)) >>= _) = _
      rw [readMember_spaced slots key draft hinner (endsNumber_front hlast hends),
        Option.bind_some]
      cases fillMember slots key draft value with
      | none => rfl
      | some draft => exact ih hlast

/-- A record in which a reader refuses the value of one member is invalid, whatever stands behind
it, if the other members could have been read with another value in its place. -/
theorem readRecord_refused {early late : List (Quoted × Value)} {key : Quoted} {value : Value}
    {empty filled : Draft} {slot : Slot Draft} {text tail : List UInt8}
    (hslot : slots.find? (·.key == slot.key) = some slot)
    (hname : key.string? = some slot.key)
    (hfill : fillMembers slots empty (early ++ (key, value) :: late) = some filled)
    (hspaced : Spaced ([openBrace] :: (frontTokens true early ++
      (separator early.isEmpty ++ ([key.text] ++ [[colon]])))) text)
    (hread : slot.read tail = .error .invalid) :
    readRecord (slots.map Slot.field) empty (text ++ tail) = .error .invalid := by
  obtain ⟨behind, hbehind, hskip⟩ := skipBlanks_token hspaced rfl
  obtain ⟨front, keyed, hfront, hkeyed, rfl⟩ := spaced_append_iff.mp hbehind
  rw [← List.append_assoc] at hkeyed
  obtain ⟨keyText, colonText, hkey, hcolon, rfl⟩ := spaced_append_iff.mp hkeyed
  obtain ⟨last, hlast, hsymbol⟩ := symbol_token hcolon rfl
  obtain rfl := spaced_nil_iff.mp hlast
  rw [fillMembers_append] at hfill
  obtain ⟨draft, hearly, hlate⟩ := Option.bind_eq_some_iff.mp hfill
  -- with the other value the slot is filled here, so nothing has been read into it before
  have hempty : (slot.kept draft).isSome = false := by
    rw [fillMembers_cons, hname, Option.bind_some] at hlate
    obtain ⟨next, hnext, -⟩ := Option.bind_eq_some_iff.mp hlate
    rw [fillMember, hslot] at hnext
    cases hkept : (slot.kept draft).isSome with
    | false => rfl
    | true => simp [hkept] at hnext
  have hmember : readMember (slots.map Slot.field) slot.key draft (colonText ++ tail) =
      .error .invalid := by
    rw [readMember, find?_fields, hslot]
    show (if (slot.kept draft).isSome then _ else _) = _
    rw [hempty, if_neg Bool.false_ne_true, hsymbol]
    show (slot.read tail >>= _) = _
    rw [hread]
    rfl
  -- there is fuel for the members in front and for the one that is refused
  have hends : EndsNumber (keyText ++ (colonText ++ tail)) := by
    cases early with
    | nil => exact endsNumber_token hkey rfl _
    | cons member early => exact endsNumber_token hkey rfl _
  have hshort := length_le_of_frontTokens hfront
  obtain ⟨fuel, hfuel⟩ : ∃ fuel,
      (front ++ (keyText ++ (colonText ++ tail))).length + 1 = fuel + 1 + early.length := by
    refine ⟨(front ++ (keyText ++ (colonText ++ tail))).length - early.length, ?_⟩
    rw [List.length_append]
    omega
  rw [readRecord, hskip]
  refine (if_pos rfl).trans ?_
  rw [List.nil_append, List.append_assoc, List.append_assoc, hfuel,
    readMembers_front hfront hends, hearly]
  show readMembers _ (fuel + 1) early.isEmpty draft (keyText ++ (colonText ++ tail)) = _
  rw [readMembers_key hkey, hname]
  show (readMember _ slot.key draft (colonText ++ tail) >>= _) = _
  rw [hmember]
  rfl

theorem readMembers_spaced {members : List (Quoted × Value)} {isFirst : Bool} {fuel : Nat}
    (hspaced : Spaced (memberTokens isFirst members) text) (hfuel : members.length < fuel) :
    readMembers (slots.map Slot.field) fuel isFirst draft (text ++ rest) =
      outcome (fillMembers slots draft members) rest := by
  obtain ⟨fuel, rfl⟩ := Nat.exists_eq_add_of_lt hfuel
  rw [memberTokens_eq_append] at hspaced
  obtain ⟨front, last, hfront, hlast, rfl⟩ := spaced_append_iff.mp hspaced
  obtain ⟨behind, hbehind, hskip⟩ := skipBlanks_token hlast rfl
  obtain rfl := spaced_nil_iff.mp hbehind
  rw [List.append_assoc, Nat.add_assoc, Nat.add_comm,
    readMembers_front hfront (endsNumber_token hlast rfl rest)]
  cases fillMembers slots draft members with
  | none => rfl
  | some draft =>
    show readMembers _ (fuel + 1) _ draft (last ++ rest) = _
    rw [readMembers, hskip]
    rfl

theorem readElements_spaced {items : List Value} {isFirst : Bool}
    (hspaced : Spaced (itemTokens isFirst items) text) :
    readElements (slots.map Slot.field) isFirst draft (text ++ rest) =
      outcome (fillItems slots draft items) rest := by
  induction slots generalizing items isFirst text draft with
  | nil =>
    show (symbol closeBracket (text ++ rest) >>= _) = _
    cases items with
    | nil =>
      obtain ⟨behind, hbehind, hclose⟩ := symbol_token hspaced rfl
      rw [hclose, spaced_nil_iff.mp hbehind]
      rfl
    | cons item items =>
      -- an item too many stands where the array should end
      have hstart : ∃ byte token tokens, itemTokens isFirst (item :: items) =
          (byte :: token) :: tokens ∧ isBlank byte = false ∧ byte ≠ closeBracket := by
        cases isFirst with
        | false => exact ⟨_, _, _, rfl, rfl, by decide⟩
        | true =>
          obtain ⟨byte, token, tokens, htokens, hbyte, hopen⟩ := item.tokens_eq_cons
          exact ⟨byte, token, _, by rw [itemTokens, htokens]; rfl, hbyte, hopen⟩
      obtain ⟨byte, token, tokens, htokens, hbyte, hopen⟩ := hstart
      rw [symbol_other (htokens ▸ hspaced) hbyte hopen]
      rfl
  | cons slot slots ih =>
    show (skipSeparator isFirst (text ++ rest) >>= _) = _
    cases items with
    | nil =>
      -- an item is missing: the array ends where a comma or a value should stand
      obtain ⟨behind, hbehind, hskip⟩ := skipBlanks_token hspaced rfl
      cases isFirst with
      | false =>
        rw [skipSeparator, symbol_of_skipBlanks (hskip rest)]
        rfl
      | true =>
        show (slot.field.fill draft (text ++ rest) >>= _) = _
        rw [(slot.decodes_fill draft).bracket (hskip rest)]
        rfl
    | cons item items =>
      obtain ⟨entry, hentry, hseparator⟩ := skipSeparator_spaced isFirst hspaced
      obtain ⟨inner, last, hinner, hlast, rfl⟩ := spaced_append_iff.mp hentry
      rw [hseparator, List.append_assoc]
      show (slot.field.fill draft (inner ++ (last ++ rest)) >>= _) = _
      rw [(slot.decodes_fill draft).value hinner (endsNumber_items hlast rest)]
      show _ = outcome (slot.fill draft item >>= _) rest
      cases slot.fill draft item with
      | none => rfl
      | some draft => exact ih hlast

/-- The fuel of a record is enough for the members of an object. -/
theorem readMembers_fuel {members : List (Quoted × Value)}
    (hspaced : Spaced (memberTokens true members) text) (rest : List UInt8) :
    readMembers (slots.map Slot.field) ((text ++ rest).length + 1) true draft (text ++ rest) =
      outcome (fillMembers slots draft members) rest := by
  refine readMembers_spaced hspaced ?_
  rw [memberTokens_eq_append] at hspaced
  obtain ⟨front, last, hfront, -, rfl⟩ := spaced_append_iff.mp hspaced
  have hlength := length_le_of_frontTokens hfront
  rw [List.length_append, List.length_append]
  omega

/-- Behind an object anything may stand, for its end is its own. -/
theorem readRecord_object {members : List (Quoted × Value)}
    (hspaced : Spaced (Value.object members).tokens text) (rest : List UInt8) :
    readRecord (slots.map Slot.field) draft (text ++ rest) =
      outcome (fillMembers slots draft members) rest := by
  obtain ⟨behind, hbehind, hskip⟩ := skipBlanks_token hspaced rfl
  rw [readRecord, hskip]
  exact (if_pos rfl).trans (readMembers_fuel hbehind rest)

theorem readRecord_spaced {value : Value} (hspaced : Spaced value.tokens text)
    (hends : EndsNumber rest) :
    readRecord (slots.map Slot.field) draft (text ++ rest) =
      outcome (recordDraft slots draft value) rest := by
  have hstarts := starts_of_spaced hspaced rest
  have hwrong := wrongKind_starts hstarts hends
  rw [readRecord]
  generalize skipBlanks (text ++ rest) = front at hstarts hwrong
  cases hstarts with
  | array items htext =>
    exact readElements_spaced htext
  | object members htext =>
    exact (if_pos rfl).trans (readMembers_fuel htext rest)
  | number form hbyte htext =>
    simp only [hwrong]
    exact (if_neg (ne_of_startsNumber hbyte (by decide))).trans
      (if_neg (ne_of_startsNumber hbyte (by decide)))
  | _ =>
    simp only [hwrong]
    rfl

end Reading

/-- What a record means once its draft is finished. -/
def recordMeaning {α : Type} (slots : List (Slot Draft)) (empty : Draft)
    (finish : Draft → Option α) (value : Value) : Option α :=
  (recordDraft slots empty value).bind finish

theorem bind_finish {α : Type} (draft : Option Draft) (finish : Draft → Option α)
    (rest : List UInt8) :
    (outcome draft rest >>= fun found =>
        match finish found.1 with
        | some value => Except.ok (value, found.2)
        | none => .error Refusal.invalid) =
      outcome (draft.bind finish) rest := by
  cases draft with
  | none => rfl
  | some draft =>
    show (match finish draft with
      | some value => Except.ok (value, rest)
      | none => .error Refusal.invalid) = outcome (finish draft) rest
    cases finish draft <;> rfl

theorem readComplete_object {α : Type} (slots : List (Slot Draft)) (empty : Draft)
    (finish : Draft → Option α) {members : List (Quoted × Value)} {text : List UInt8}
    (hspaced : Spaced (Value.object members).tokens text) (rest : List UInt8) :
    readComplete (slots.map Slot.field) empty finish (text ++ rest) =
      outcome (recordMeaning slots empty finish (.object members)) rest := by
  rw [readComplete, readRecord_object hspaced, recordMeaning, recordDraft]
  exact bind_finish _ finish rest

theorem decodes_readComplete {α : Type} (slots : List (Slot Draft)) (empty : Draft)
    (finish : Draft → Option α) :
    Decodes (readComplete (slots.map Slot.field) empty finish)
      (recordMeaning slots empty finish) where
  value := by
    intro value text rest hspaced hends
    rw [readComplete, readRecord_spaced hspaced hends, recordMeaning]
    exact bind_finish _ finish rest
  bracket := by
    intro text rest hskip
    rw [readComplete, readRecord, hskip]
    rfl

/-! ## Which drafts come of members -/

/-- The values that stand under a key, however the key is escaped. -/
def values (key : String) (members : List (Quoted × Value)) : List Value :=
  members.filterMap fun member => if member.1.string? = some key then some member.2 else none

theorem values_cons_of_eq {key : String} {name : Quoted} (hname : name.string? = some key)
    (value : Value) (members : List (Quoted × Value)) :
    values key ((name, value) :: members) = value :: values key members := by
  simp [values, hname]

theorem values_cons_of_ne {key : String} {name : Quoted} (hname : name.string? ≠ some key)
    (value : Value) (members : List (Quoted × Value)) :
    values key ((name, value) :: members) = values key members := by
  simp [values, hname]

/-- What a slot keeps after some values have come for it; a second one is refused. -/
def Slot.after (slot : Slot Draft) (kept : Option slot.Kept) :
    List Value → Option (Option slot.Kept)
  | [] => some kept
  | value :: rest =>
      if kept.isSome then none
      else (slot.meaning value).bind fun kept => slot.after (some kept) rest

/-- Two slots that do not get in each other's way. -/
structure Apart (first second : Slot Draft) : Prop where
  key_ne : first.key ≠ second.key
  kept_first : ∀ draft value, second.kept (first.keep draft value) = second.kept draft
  kept_second : ∀ draft value, first.kept (second.keep draft value) = first.kept draft

/-- The slots of a draft, each with a place of its own. -/
structure Complete (slots : List (Slot Draft)) : Prop where
  apart : slots.Pairwise Apart
  ext : ∀ {draft other : Draft}, (∀ slot ∈ slots, slot.kept draft = slot.kept other) →
    draft = other

section Members

variable {slots : List (Slot Draft)}

theorem Complete.eq_or_apart (hcomplete : Complete slots) {first second : Slot Draft}
    (hfirst : first ∈ slots) (hsecond : second ∈ slots) : first = second ∨ Apart first second := by
  let either (first second : Slot Draft) : Prop := first = second ∨ Apart first second
  have hsymm : Std.Symm either :=
    ⟨fun _ _ hor => hor.imp Eq.symm fun h => ⟨h.key_ne.symm, h.kept_second, h.kept_first⟩⟩
  have hpairwise : slots.Pairwise either := hcomplete.apart.imp .inr
  exact hpairwise.forall_of_forall (fun _ _ => .inl rfl) hfirst hsecond

theorem fillMember_other {key : String} (hother : ∀ slot ∈ slots, slot.key ≠ key)
    (draft : Draft) (value : Value) : fillMember slots key draft value = some draft := by
  have hfind : slots.find? (·.key == key) = none :=
    List.find?_eq_none.mpr fun slot hslot => by simp [hother slot hslot]
  rw [fillMember, hfind]

theorem find?_key (hcomplete : Complete slots) {slot : Slot Draft} (hslot : slot ∈ slots) :
    slots.find? (·.key == slot.key) = some slot := by
  cases hfind : slots.find? (·.key == slot.key) with
  | none => exact absurd (beq_iff_eq.mpr rfl) (List.find?_eq_none.mp hfind slot hslot)
  | some found =>
    have hkey : found.key = slot.key := by
      have hfound := List.find?_some hfind
      simpa using hfound
    rcases hcomplete.eq_or_apart (List.mem_of_find?_eq_some hfind) hslot with rfl | hapart
    · rfl
    · exact absurd hkey hapart.key_ne

theorem fillMember_key (hcomplete : Complete slots) {slot : Slot Draft} (hslot : slot ∈ slots)
    (draft : Draft) (value : Value) :
    fillMember slots slot.key draft value =
      if (slot.kept draft).isSome then none else slot.fill draft value := by
  rw [fillMember, find?_key hcomplete hslot]

/-- A value that is put into one slot is what comes next for this slot alone. -/
theorem after_keep (hcomplete : Complete slots) {slot : Slot Draft} (hslot : slot ∈ slots)
    {name : Quoted} (hname : name.string? = some slot.key) {value : Value} {kept : slot.Kept}
    (hmeaning : slot.meaning value = some kept) {draft : Draft} (hempty : slot.kept draft = none)
    (members : List (Quoted × Value)) :
    ∀ other ∈ slots,
      other.after (other.kept draft) (values other.key ((name, value) :: members)) =
        other.after (other.kept (slot.keep draft kept)) (values other.key members) := by
  intro other hother
  rcases hcomplete.eq_or_apart hslot hother with rfl | hapart
  · rw [values_cons_of_eq hname, Slot.after, hempty, hmeaning, slot.kept_keep]
    rfl
  · have hne : name.string? ≠ some other.key := by
      rw [hname, Ne, Option.some_inj]
      exact hapart.key_ne
    rw [values_cons_of_ne hne, hapart.kept_first]

/-- A slot that refuses a value has no draft of the members. -/
theorem not_forall_after {slot : Slot Draft} (hslot : slot ∈ slots) {name : Quoted}
    (hname : name.string? = some slot.key) (value : Value) (start draft : Draft)
    (hrefused : (slot.kept start).isSome = true ∨ slot.meaning value = none)
    (members : List (Quoted × Value)) :
    ¬ ∀ other ∈ slots, other.after (other.kept start)
      (values other.key ((name, value) :: members)) = some (other.kept draft) := by
  intro hall
  have hkept := hall slot hslot
  rw [values_cons_of_eq hname, Slot.after] at hkept
  rcases hrefused with hfilled | hmeaning
  · rw [if_pos hfilled] at hkept
    contradiction
  · rw [hmeaning] at hkept
    split at hkept <;> contradiction

/-- The draft of some members keeps in every slot what comes of the values under its key. -/
theorem fillMembers_eq_some_iff (hcomplete : Complete slots) {start draft : Draft}
    {members : List (Quoted × Value)} :
    fillMembers slots start members = some draft ↔
      (∀ member ∈ members, member.1.Denotes) ∧
        ∀ slot ∈ slots,
          slot.after (slot.kept start) (values slot.key members) = some (slot.kept draft) := by
  induction members generalizing start with
  | nil =>
    constructor
    · intro hfill
      obtain rfl := Option.some_inj.mp hfill
      exact ⟨fun _ hnone => absurd hnone List.not_mem_nil, fun _ _ => rfl⟩
    · rintro ⟨-, hkept⟩
      exact congrArg some (hcomplete.ext fun slot hslot => Option.some_inj.mp (hkept slot hslot))
  | cons member members ih =>
    obtain ⟨name, value⟩ := member
    rw [List.forall_mem_cons, fillMembers]
    cases hname : name.string? with
    | none => simp [Quoted.Denotes, hname]
    | some key =>
      have hdenotes : Quoted.Denotes name := by simp [Quoted.Denotes, hname]
      show (fillMember slots key start value).bind (fillMembers slots · members) = some draft ↔ _
      rw [and_iff_right hdenotes]
      by_cases hknown : ∃ slot ∈ slots, slot.key = key
      · obtain ⟨slot, hslot, rfl⟩ := hknown
        rw [fillMember_key hcomplete hslot]
        cases hkept : slot.kept start with
        | some kept =>
          -- the slot has its value, so this one is refused, as it is in the list of values
          have hfilled : (slot.kept start).isSome = true := by
            rw [hkept]
            rfl
          have hrefused := not_forall_after hslot hname value start draft (.inl hfilled) members
          exact iff_of_false (by simp) fun h => hrefused h.2
        | none =>
          cases hmeaning : slot.meaning value with
          | none =>
            have hrefused := not_forall_after hslot hname value start draft (.inr hmeaning) members
            exact iff_of_false (by simp [Slot.fill, hmeaning]) fun h => hrefused h.2
          | some kept =>
            have hafter := after_keep hcomplete hslot hname hmeaning hkept members
            rw [Slot.fill, hmeaning]
            refine ih.trans (and_congr_right fun _ => forall₂_congr fun other hother => ?_)
            rw [hafter other hother]
      · have hother : ∀ slot ∈ slots, slot.key ≠ key :=
          fun slot hslot hkey => hknown ⟨slot, hslot, hkey⟩
        rw [fillMember_other hother]
        refine ih.trans (and_congr_right fun _ => forall₂_congr fun slot hslot => ?_)
        have hne : name.string? ≠ some slot.key := by
          rw [hname, Ne, Option.some_inj]
          exact fun heq => hother slot hslot heq.symm
        rw [values_cons_of_ne hne]

end Members

/-- An array has an item for every slot. -/
theorem length_of_fillItems {slots : List (Slot Draft)} {start draft : Draft} {items : List Value}
    (hfill : fillItems slots start items = some draft) : items.length = slots.length := by
  induction slots generalizing start items with
  | nil =>
    cases items with
    | nil => rfl
    | cons item items => cases hfill
  | cons slot slots ih =>
    cases items with
    | nil => cases hfill
    | cons item items =>
      obtain ⟨next, -, hrest⟩ := Option.bind_eq_some_iff.mp hfill
      rw [List.length_cons, ih hrest, List.length_cons]

/-! ## Empty slots -/

/-- A slot stays empty if no value has come for it. -/
theorem Slot.after_none_eq_none_iff (slot : Slot Draft) {found : List Value} :
    slot.after none found = some none ↔ found = [] := by
  match found with
  | [] => simp [Slot.after]
  | [value] => cases hmeaning : slot.meaning value <;> simp [Slot.after, hmeaning]
  | value :: second :: rest =>
    cases hmeaning : slot.meaning value <;> simp [Slot.after, hmeaning]

/-- Exactly one of some members has a key, and its value is of some kind. -/
def Sole (key : String) (members : List (Quoted × Value)) (Holds : Value → Prop) : Prop :=
  ∃ value, values key members = [value] ∧ Holds value

theorem values_eq_nil {key : String} {members : List (Quoted × Value)}
    (hother : some key ∉ members.map (·.1.string?)) : values key members = [] := by
  rw [values, List.filterMap_eq_nil_iff]
  intro member hmember
  refine if_neg fun hname => hother ?_
  rw [← hname]
  exact List.mem_map_of_mem (f := (·.1.string?)) hmember

/-- Where no text is a key twice, the member with a key is the only one. -/
theorem sole_of_nodup {key : String} {members : List (Quoted × Value)}
    (hnodup : (members.map (·.1.string?)).Nodup) {name : Quoted} {value : Value}
    (hmember : (name, value) ∈ members) (hname : name.string? = some key) {Holds : Value → Prop}
    (hholds : Holds value) : Sole key members Holds := by
  refine ⟨value, ?_, hholds⟩
  induction members with
  | nil => exact absurd hmember List.not_mem_nil
  | cons member members ih =>
    obtain ⟨hfirst, hrest⟩ := List.nodup_cons.mp hnodup
    rcases List.mem_cons.mp hmember with rfl | hlater
    · rw [values_cons_of_eq hname, values_eq_nil (hname ▸ hfirst)]
    · have hne : member.1.string? ≠ some key := by
        intro hsame
        have hmapped := List.mem_map_of_mem (f := (·.1.string?)) hlater
        rw [hname, ← hsame] at hmapped
        exact hfirst hmapped
      rw [values_cons_of_ne hne, ih hrest hlater]

/-- A slot is filled by a single value, and keeps its meaning. -/
theorem Slot.after_none_eq_some_iff (slot : Slot Draft) {key : String} {kept : slot.Kept}
    {members : List (Quoted × Value)} :
    slot.after none (values key members) = some (some kept) ↔
      Sole key members fun value => slot.meaning value = some kept := by
  rw [Sole]
  match values key members with
  | [] => simp [Slot.after]
  | [value] => cases hmeaning : slot.meaning value <;> simp [Slot.after, hmeaning]
  | value :: second :: rest =>
    cases hmeaning : slot.meaning value <;> simp [Slot.after, hmeaning]

/-! ## Order -/

/-- Whether the key of a member is one of some keys. -/
def among (keys : List String) (member : Quoted × Value) : Bool :=
  keys.any fun key => decide (member.1.string? = some key)

section Order

variable {key : String} {keys : List String} {members others : List (Quoted × Value)}

theorem values_filter_among (hkey : key ∈ keys) (members : List (Quoted × Value)) :
    values key (members.filter (among keys)) = values key members := by
  rw [values, List.filterMap_filter]
  refine congrArg (List.filterMap · members) (funext fun member => ?_)
  by_cases hname : member.1.string? = some key
  · have hamong : among keys member = true := by
      rw [among, List.any_eq_true]
      exact ⟨key, hkey, decide_eq_true hname⟩
    rw [if_pos hamong]
  · rw [if_neg hname, ite_self]

/-- Neither members with other keys nor the order of the members change what stands under a key. -/
theorem values_perm (hkey : key ∈ keys)
    (hperm : (members.filter (among keys)).Perm (others.filter (among keys))) :
    (values key members).Perm (values key others) := by
  rw [← values_filter_among hkey members, ← values_filter_among hkey others]
  exact hperm.filterMap _

theorem Sole.perm {Holds : Value → Prop} (hsole : Sole key members Holds) (hkey : key ∈ keys)
    (hperm : (members.filter (among keys)).Perm (others.filter (among keys))) :
    Sole key others Holds := by
  obtain ⟨value, hvalue, hholds⟩ := hsole
  have hvalues := values_perm hkey hperm
  rw [hvalue] at hvalues
  exact ⟨value, List.perm_singleton.mp hvalues.symm, hholds⟩

end Order

end Json
end Chip8
