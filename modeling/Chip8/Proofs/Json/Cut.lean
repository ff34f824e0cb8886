import Chip8.Proofs.Json.Record

/-!
# Texts that are cut short

What readers make of a text that lacks its end.  A word, a string or an object that is cut short is
truncated; of a number there may be digits left, and then nothing is left behind them.

* `Cut` — what is left of a text of which the end is missing.
* `readString_cut`, `literal_cut` — words and strings that are cut short.
* `Notices` — a reader notices where the text of a value is cut short.
* `notices_readNatural`, `notices_readBool`, `notices_readChoice` — readers notice it in natural
  numbers, truth values and names.
* `readComplete_cut` — an object that is cut short is truncated, if fields are read from all its
  members.
-/

namespace Chip8
namespace Json

/-! ## Cuts -/

/-- What is left of a text of which the end is missing. -/
def Cut (front text : List UInt8) : Prop := ∃ back, back ≠ [] ∧ text = front ++ back

theorem not_cut_nil (front : List UInt8) : ¬ Cut front [] := by
  rintro ⟨back, hback, hnil⟩
  exact hback (List.append_eq_nil_iff.mp hnil.symm).2

theorem cut_append_iff {front first second : List UInt8} :
    Cut front (first ++ second) ↔
      Cut front first ∨ ∃ part, front = first ++ part ∧ Cut part second := by
  constructor
  · rintro ⟨back, hback, hsplit⟩
    rcases List.append_eq_append_iff.mp hsplit with ⟨part, hfront, hsecond⟩ | ⟨part, hfirst, hrest⟩
    · exact .inr ⟨part, hfront, back, hback, hsecond⟩
    · by_cases hpart : part = []
      · subst hpart
        rw [List.nil_append] at hrest
        rw [List.append_nil] at hfirst
        exact .inr ⟨[], by rw [hfirst, List.append_nil], back, hback, hrest.symm⟩
      · exact .inl ⟨part, hpart, hfirst⟩
  · rintro (⟨back, hback, rfl⟩ | ⟨part, rfl, back, hback, rfl⟩)
    · exact ⟨back ++ second, by simp [hback], List.append_assoc ..⟩
    · exact ⟨back, hback, (List.append_assoc ..).symm⟩

theorem cut_cons_iff {front text : List UInt8} {byte : UInt8} :
    Cut front (byte :: text) ↔ front = [] ∨ ∃ part, front = byte :: part ∧ Cut part text := by
  constructor
  · rintro ⟨back, hback, hsplit⟩
    cases front with
    | nil => exact .inl rfl
    | cons other front =>
      obtain ⟨rfl, rfl⟩ := List.cons.inj hsplit
      exact .inr ⟨front, rfl, back, hback, rfl⟩
  · rintro (rfl | ⟨part, rfl, back, hback, rfl⟩)
    · exact ⟨byte :: text, List.cons_ne_nil _ _, rfl⟩
    · exact ⟨back, hback, rfl⟩

/-- Where the text of two parts is cut short, what is read of them is truncated: the first part is,
or it is read and the second one is. -/
theorem bind_cut {α β : Type} {read : List UInt8 → Except Refusal α} {next : α → Except Refusal β}
    {found : List UInt8 → α} {front first second : List UInt8} (hcut : Cut front (first ++ second))
    (hshort : Cut front first → read front = .error .truncated)
    (hwhole : ∀ part, read (first ++ part) = .ok (found part))
    (hnext : ∀ part, front = first ++ part → Cut part second →
      next (found part) = .error .truncated) :
    (read front >>= next) = .error .truncated := by
  rcases cut_append_iff.mp hcut with hfirst | ⟨part, rfl, hpart⟩
  · rw [hshort hfirst]
    rfl
  · rw [hwhole]
    exact hnext part rfl hpart

theorem EndsNumber.cut {front text : List UInt8} (hends : EndsNumber text)
    (hcut : Cut front text) : EndsNumber front := by
  obtain ⟨back, -, rfl⟩ := hcut
  cases front with
  | nil => exact endsNumber_nil
  | cons byte front => exact hends

theorem Blank.cut {front blanks : List UInt8} (hblanks : Blank blanks)
    (hcut : Cut front blanks) : Blank front := by
  obtain ⟨back, -, rfl⟩ := hcut
  exact fun byte hbyte => hblanks byte (List.mem_append_left back hbyte)

/-! ## Tokens -/

section Tokens

variable {front text : List UInt8} {byte : UInt8} {token : Token}

/-- Behind its blanks, a text that is cut short starts as it did, if anything is left of it. -/
theorem skipBlanks_cut {tokens : List Token} (hspaced : Spaced ((byte :: token) :: tokens) text)
    (hbyte : isBlank byte = false) (hcut : Cut front text) :
    ∃ behind, Spaced tokens behind ∧ (skipBlanks front = [] ∨
      ∃ part, skipBlanks front = byte :: part ∧ Cut part (token ++ behind)) := by
  obtain ⟨blanks, behind, hblanks, hbehind, rfl⟩ := spaced_cons_iff.mp hspaced
  refine ⟨behind, hbehind, ?_⟩
  rcases cut_append_iff.mp hcut with hshort | ⟨part, rfl, hpart⟩
  · exact .inl (skipBlanks_eq_nil_iff.mpr (hblanks.cut hshort))
  · rw [skipBlanks_append hblanks]
    rcases cut_cons_iff.mp hpart with rfl | ⟨part, rfl, hrest⟩
    · exact .inl rfl
    · exact .inr ⟨part, skipBlanks_cons hbyte part, hrest⟩

theorem skipBlanks_cut_token (hspaced : Spaced [byte :: token] text)
    (hbyte : isBlank byte = false) (hcut : Cut front text) :
    skipBlanks front = [] ∨ ∃ part, skipBlanks front = byte :: part ∧ Cut part token := by
  obtain ⟨behind, hbehind, hfront⟩ := skipBlanks_cut hspaced hbyte hcut
  rwa [spaced_nil_iff.mp hbehind, List.append_nil] at hfront

theorem symbol_cut {sign : UInt8} (hspaced : Spaced [[sign]] text) (hsign : isBlank sign = false)
    (hcut : Cut front text) : symbol sign front = .error .truncated := by
  rcases skipBlanks_cut_token hspaced hsign hcut with hnil | ⟨part, -, hpart⟩
  · rw [symbol, hnil]
  · exact absurd hpart (not_cut_nil part)

theorem symbol_part {sign : UInt8} (hspaced : Spaced [[sign]] text) (hsign : isBlank sign = false)
    (rest : List UInt8) : symbol sign (text ++ rest) = .ok rest := by
  obtain ⟨behind, hbehind, hsymbol⟩ := symbol_token hspaced hsign
  rw [hsymbol, spaced_nil_iff.mp hbehind, List.nil_append]

theorem literal_cut {word : List UInt8} (hcut : Cut front word) :
    literal word front = .error .truncated := by
  induction word generalizing front with
  | nil => exact absurd hcut (not_cut_nil front)
  | cons letter word ih =>
    rcases cut_cons_iff.mp hcut with rfl | ⟨part, rfl, hpart⟩
    · rfl
    · rw [literal, if_pos rfl, ih hpart]

/-- A string is read in one pass: what stands behind it decides nothing. -/
theorem readStringFrom_append (phase : TextPhase) (found front back : List UInt8) :
    readStringFrom phase found front = .error .truncated ∨
      readStringFrom phase found (front ++ back) =
        (readStringFrom phase found front).map fun reading => (reading.1, reading.2 ++ back) := by
  induction front generalizing phase found with
  | nil => exact .inl rfl
  | cons byte front ih =>
    rw [List.cons_append, readStringFrom, readStringFrom]
    split
    · cases String.fromUTF8? found.reverse.toByteArray <;> exact .inr rfl
    · cases takeByte phase byte with
      | none => exact .inr rfl
      | some next => exact ih next.1 (next.2.reverse ++ found)

/-- A string that is cut short is truncated. -/
theorem readString_cut {string : Quoted} (hdenotes : string.Denotes)
    (hcut : Cut front string.body) : readString front = .error .truncated := by
  obtain ⟨back, hback, hbody⟩ := hcut
  obtain ⟨name, hname⟩ := Option.isSome_iff_exists.mp hdenotes
  have hread : readString (front ++ back) = .ok (name, []) := by
    have hwhole := readString_body string []
    rwa [List.append_nil, hbody, hname] at hwhole
  rcases readStringFrom_append .plain [] front back with htruncated | happend
  · exact htruncated
  · rw [readString, happend] at hread
    cases hfront : readStringFrom .plain [] front with
    | error refusal =>
      rw [hfront] at hread
      cases hread
    | ok reading =>
      rw [hfront] at hread
      have hnil : reading.2 ++ back = [] := congrArg Prod.snd (Except.ok.inj hread)
      exact absurd (List.append_eq_nil_iff.mp hnil).2 hback

end Tokens

/-! ## Values -/

/-- A reader notices where the text of a value is cut short: it finds it truncated, or reads all
that is left. -/
def Notices {α : Type} (read : Reader α) (value : Value) : Prop :=
  ∀ text, Spaced value.tokens text → ∀ front, Cut front text →
    read front = .error .truncated ∨ ∃ other, read front = .ok (other, [])

theorem Notices.map {α β : Type} {read : Reader α} {value : Value} (hread : Notices read value)
    (f : α → β) : Notices (Reader.map f read) value := by
  intro text hspaced front hcut
  rw [Reader.map]
  rcases hread text hspaced front hcut with htruncated | ⟨other, hother⟩
  · exact .inl (by rw [htruncated]; rfl)
  · exact .inr ⟨f other, by rw [hother]; rfl⟩

theorem foldl_digits_le (value : Nat) (digits : List (Fin 10)) :
    value ≤ digits.foldl (fun value digit => 10 * value + digit.val) value := by
  induction digits generalizing value with
  | nil => exact Nat.le_refl value
  | cons digit digits ih => exact Nat.le_trans (by omega) (ih (10 * value + digit.val))

/-- Of the digits of a number there may be some left, which are no more than the number. -/
theorem Figures.cut {figures : Figures} {part : List UInt8}
    (hcut : Cut part (figures.rest.map figure)) :
    ∃ less : Figures, less.first = figures.first ∧ figure figures.first :: part = less.text ∧
      (figures.rest = [] → less.rest = []) ∧ less.value ≤ figures.value := by
  obtain ⟨back, -, hsplit⟩ := hcut
  obtain ⟨digits, more, hrest, rfl, rfl⟩ := List.map_eq_append_iff.mp hsplit
  refine ⟨⟨figures.first, digits⟩, rfl, rfl, fun hnil => ?_, ?_⟩
  · exact (List.append_eq_nil_iff.mp (hrest.symm.trans hnil)).1
  · have hdigits : figures.digits = (⟨figures.first, digits⟩ : Figures).digits ++ more := by
      rw [Figures.digits, hrest]
      rfl
    have hvalue : figures.value = more.foldl (fun value digit => 10 * value + digit.val)
        (⟨figures.first, digits⟩ : Figures).value := by
      rw [Figures.value, hdigits, List.foldl_append]
      rfl
    rw [hvalue]
    exact foldl_digits_le _ more

theorem NumberForm.eq_bare {form : NumberForm} {value : Nat} (hvalue : form.natural? = some value) :
    form = .bare form.whole form.trimmed ∧ form.whole.value = value := by
  obtain ⟨negative, whole, htrimmed, fraction, exponent⟩ := form
  rw [NumberForm.natural?] at hvalue
  split at hvalue
  · cases hvalue
  · next hbare =>
    simp only [Bool.or_eq_true, not_or, Bool.not_eq_true, Option.isSome_eq_false_iff,
      Option.isNone_iff_eq_none] at hbare
    obtain ⟨⟨rfl, rfl⟩, rfl⟩ := hbare
    exact ⟨rfl, Option.some_inj.mp hvalue⟩

/-- Where a bare number is cut short, the digits left are read as a number no larger. -/
theorem notices_readNatural {limit : Nat} {form : NumberForm}
    (hmeant : ((Value.number form).natural? limit).isSome) :
    Notices (readNatural limit) (.number form) := by
  intro text hspaced front hcut
  obtain ⟨value, hvalue⟩ := Option.isSome_iff_exists.mp hmeant
  obtain ⟨hnatural, hlimit⟩ := Option.filter_eq_some_iff.mp hvalue
  obtain ⟨hbare, hwhole⟩ := NumberForm.eq_bare hnatural
  rw [hbare, Value.tokens, NumberForm.text_bare, Figures.text_cons] at hspaced
  have hdigit := isDigit_figure form.whole.first
  rw [readNatural]
  rcases skipBlanks_cut_token hspaced (isBlank_of_isDigit hdigit) hcut with
    hnil | ⟨part, hskip, hpart⟩
  · exact .inl (by rw [hnil])
  · obtain ⟨less, hfirst, htext, hrest, hle⟩ := Figures.cut hpart
    have htrimmed : less.first.val = 0 → less.rest = [] :=
      fun hzero => hrest (form.trimmed (hfirst ▸ hzero))
    have hread := readNumber_text .truncated (.bare less htrimmed) endsNumber_nil
    rw [NumberForm.text_bare, List.append_nil, ← htext] at hread
    -- fewer digits make no larger number, so the limit is kept and the digits are read
    have hless : less.value < limit := by
      rw [decide_eq_true_eq] at hlimit
      omega
    refine .inr ⟨less.value, ?_⟩
    simp only [hskip, if_pos (Or.inr hdigit), hread]
    exact if_pos hless

theorem notices_readBool (value : Bool) : Notices readBool (.truth value) := by
  intro text hspaced front hcut
  refine .inl ?_
  rw [readBool]
  cases value with
  | true =>
    have hword : Spaced [ascii 't' :: asciiWord "rue"] text := hspaced
    rcases skipBlanks_cut_token hword rfl hcut with hnil | ⟨part, hskip, hpart⟩
    · rw [hnil]
    · rw [hskip]
      refine (if_pos rfl).trans ?_
      rw [literal_cut hpart]
      rfl
  | false =>
    have hword : Spaced [ascii 'f' :: asciiWord "alse"] text := hspaced
    rcases skipBlanks_cut_token hword rfl hcut with hnil | ⟨part, hskip, hpart⟩
    · rw [hnil]
    · rw [hskip]
      refine (if_neg (by decide)).trans ((if_pos rfl).trans ?_)
      rw [literal_cut hpart]
      rfl

theorem notices_readOptional_null {α : Type} (read : Reader α) :
    Notices (readOptional read) .null := by
  intro text hspaced front hcut
  refine .inl ?_
  rw [readOptional]
  have hword : Spaced [ascii 'n' :: asciiWord "ull"] text := hspaced
  rcases skipBlanks_cut_token hword rfl hcut with hnil | ⟨part, hskip, hpart⟩
  · rw [hnil]
  · rw [hskip]
    refine (if_pos rfl).trans ?_
    rw [literal_cut hpart]
    rfl

theorem Notices.optional {α : Type} {read : Reader α} {form : NumberForm}
    (hread : Notices read (.number form)) : Notices (readOptional read) (.number form) := by
  intro text hspaced front hcut
  obtain ⟨byte, token, htoken, hbyte⟩ := form.text_starts
  rw [readOptional]
  rw [Value.tokens, htoken] at hspaced
  rcases skipBlanks_cut_token hspaced (isBlank_of_startsNumber hbyte) hcut with
    hnil | ⟨part, hskip, hpart⟩
  · exact .inl (by rw [hnil])
  · -- the number is read from behind its blanks, where it is cut short as well
    have hbare : Spaced (Value.number form).tokens (byte :: token) := by
      rw [Value.tokens, htoken]
      exact spaced_token _
    have hcutBare : Cut (byte :: part) (byte :: token) := cut_cons_iff.mpr (.inr ⟨part, rfl, hpart⟩)
    have hletter : byte ≠ ascii 'n' := ne_of_startsNumber hbyte (by decide)
    rw [hskip]
    simp only [if_neg hletter]
    exact (hread.map some) _ hbare _ hcutBare

/-- A string where a name is expected. -/
theorem notices_readChoice {α : Type} (named : String → Option α) {name : Quoted}
    (hdenotes : name.Denotes) : Notices (readChoice named) (.string name) := by
  intro text hspaced front hcut
  rw [readChoice]
  rcases skipBlanks_cut_token hspaced rfl hcut with hnil | ⟨part, hskip, hpart⟩
  · exact .inl (by rw [hnil])
  · refine .inl ?_
    rw [hskip]
    refine (if_pos rfl).trans ?_
    rw [readName, readString_cut hdenotes hpart]
    rfl

/-! ## Records -/

section Records

variable {Draft : Type} {slots : List (Slot Draft)} {front text : List UInt8}

/-- A member that is cut short is truncated, or all that is left of it is read. -/
theorem readMember_cut (hcomplete : Complete slots) {slot : Slot Draft} (hslot : slot ∈ slots)
    {value : Value} (hnotices : Notices slot.read value) {draft : Draft}
    (hempty : (slot.kept draft).isSome = false)
    (hspaced : Spaced ([colon] :: value.tokens) text) (hcut : Cut front text) :
    readMember (slots.map Slot.field) slot.key draft front = .error .truncated ∨
      ∃ other, readMember (slots.map Slot.field) slot.key draft front = .ok (other, []) := by
  rw [← List.singleton_append] at hspaced
  obtain ⟨sign, inner, hsign, hinner, rfl⟩ := spaced_append_iff.mp hspaced
  have hfield : (slots.map Slot.field).find? (·.key == slot.key) = some slot.field := by
    rw [find?_fields, find?_key hcomplete hslot]
    rfl
  have hfilled : slot.field.isFilled draft = false := hempty
  rw [readMember, hfield]
  simp only [hfilled]
  show (symbol colon front >>= slot.field.fill draft) = _ ∨
    ∃ other, (symbol colon front >>= slot.field.fill draft) = _
  rcases cut_append_iff.mp hcut with hshort | ⟨part, rfl, hpart⟩
  · rw [symbol_cut hsign rfl hshort]
    exact .inl rfl
  · rw [symbol_part hsign rfl]
    exact (hnotices.map (slot.keep draft)) inner hinner part hpart

theorem skipSeparator_cut {isFirst : Bool} (hspaced : Spaced (separator isFirst) text)
    (hcut : Cut front text) : skipSeparator isFirst front = .error .truncated := by
  cases isFirst with
  | true => exact absurd (spaced_nil_iff.mp hspaced ▸ hcut) (not_cut_nil front)
  | false => exact symbol_cut hspaced rfl hcut

theorem skipSeparator_part {isFirst : Bool} (hspaced : Spaced (separator isFirst) text)
    (rest : List UInt8) : skipSeparator isFirst (text ++ rest) = .ok rest := by
  obtain ⟨entry, hentry, hskip⟩ :=
    skipSeparator_spaced isFirst ((List.append_nil (separator isFirst)).symm ▸ hspaced)
  rw [hskip, spaced_nil_iff.mp hentry, List.nil_append]

/-- An object that is cut short in front of a member does not end there. -/
theorem not_closed_of_cut {isFirst : Bool} {member : Quoted × Value}
    {members : List (Quoted × Value)}
    (hspaced : Spaced (memberTokens isFirst (member :: members)) text) (hcut : Cut front text) :
    ∀ byte rest, skipBlanks front = byte :: rest → byte ≠ closeBrace := by
  obtain ⟨byte, token, tokens, htokens, hbyte, hopen⟩ := memberTokens_eq_cons isFirst member members
  intro first rest hskip
  obtain ⟨_, -, hnil | ⟨part, hpart, -⟩⟩ := skipBlanks_cut (htokens ▸ hspaced) hbyte hcut
  · rw [hnil] at hskip
    cases hskip
  · rw [hpart] at hskip
    exact (List.cons.inj hskip).1 ▸ hopen

/-- The opening quote of a string, with the blanks in front of it, is a part by itself. -/
theorem spaced_quote {string : Quoted} {tokens : List Token}
    (hspaced : Spaced (string.text :: tokens) text) :
    ∃ opening behind, Spaced [[quote]] opening ∧ Spaced tokens behind ∧
      text = opening ++ (string.body ++ behind) := by
  obtain ⟨blanks, behind, hblanks, hbehind, rfl⟩ := spaced_cons_iff.mp hspaced
  refine ⟨blanks ++ ([quote] ++ []), behind, .cons hblanks .nil, hbehind, ?_⟩
  simp only [Quoted.text, List.append_assoc, List.cons_append, List.nil_append]

/-- A slot into which a value goes is empty before. -/
theorem not_kept_of_fillMember (hcomplete : Complete slots) {slot : Slot Draft}
    (hslot : slot ∈ slots) {value : Value} {draft next : Draft}
    (hfill : fillMember slots slot.key draft value = some next) :
    (slot.kept draft).isSome = false := by
  rw [fillMember_key hcomplete hslot] at hfill
  refine Bool.eq_false_iff.mpr fun hkept => ?_
  rw [if_pos hkept] at hfill
  cases hfill

/-- Members that are cut short are truncated, if fields are read from all of them. -/
theorem readMembers_cut (hcomplete : Complete slots) {members : List (Quoted × Value)}
    (hnotices : ∀ member ∈ members, ∃ slot ∈ slots, member.1.string? = some slot.key ∧
      Notices slot.read member.2)
    {draft filled : Draft} (hfill : fillMembers slots draft members = some filled)
    {isFirst : Bool} (hspaced : Spaced (memberTokens isFirst members) text)
    (hcut : Cut front text) {fuel : Nat} (hfuel : front.length < fuel) :
    readMembers (slots.map Slot.field) fuel isFirst draft front = .error .truncated := by
  induction members generalizing isFirst text front draft fuel with
  | nil =>
    obtain ⟨fuel, rfl⟩ := Nat.exists_eq_add_of_lt hfuel
    rcases skipBlanks_cut_token hspaced rfl hcut with hnil | ⟨part, -, hpart⟩
    · rw [readMembers, hnil]
    · exact absurd hpart (not_cut_nil part)
  | cons member members ih =>
    obtain ⟨name, value⟩ := member
    obtain ⟨⟨slot, hslot, hname, hvalue⟩, hothers⟩ := List.forall_mem_cons.mp hnotices
    obtain ⟨key, hkey, hmember⟩ := Option.bind_eq_some_iff.mp hfill
    obtain ⟨next, hnext, hrest⟩ := Option.bind_eq_some_iff.mp hmember
    obtain rfl : slot.key = key := Option.some_inj.mp (hname.symm.trans hkey)
    obtain ⟨fuel, rfl⟩ : ∃ less, fuel = less + 1 := ⟨fuel - 1, by omega⟩
    rw [readMembers_open (not_closed_of_cut hspaced hcut)]
    -- the text of the member falls into the parts that the reader takes one by one
    obtain ⟨lead, keyed, hlead, hkeyed, rfl⟩ := spaced_append_iff.mp hspaced
    obtain ⟨opening, pair, hopening, hpair, rfl⟩ := spaced_quote hkeyed
    obtain ⟨inner, last, hinner, hlast, rfl⟩ := spaced_colon hpair
    refine bind_cut hcut (skipSeparator_cut hlead) (skipSeparator_part hlead) ?_
    rintro opened rfl hopened
    refine bind_cut hopened (symbol_cut hopening rfl) (symbol_part hopening rfl) ?_
    rintro named rfl hnamed
    have hdenotes : Quoted.Denotes name := by
      rw [Quoted.Denotes, hkey]
      rfl
    have hnamedWhole : ∀ part, readString (name.body ++ part) = .ok (slot.key, part) := by
      intro part
      rw [readString_body, hkey]
      rfl
    refine bind_cut hnamed (readString_cut hdenotes) hnamedWhole ?_
    rintro valued rfl hvalued
    -- the quote of the key has taken one byte, so there is fuel for another member
    have hlength := name.length_body_pos
    simp only [List.length_append] at hfuel
    rcases cut_append_iff.mp hvalued with hshort | ⟨others, rfl, hcutOthers⟩
    · obtain ⟨fuel, rfl⟩ : ∃ less, fuel = less + 1 := ⟨fuel - 1, by omega⟩
      have hempty := not_kept_of_fillMember hcomplete hslot hnext
      rcases readMember_cut hcomplete hslot hvalue hempty hinner hshort with
        htruncated | ⟨other, hother⟩
      · simp only [htruncated]
        rfl
      · simp only [hother]
        rfl
    · -- the whole value is there, and what is left of the other members ends it
      have hends : EndsNumber others := by
        have hlastEnds := endsNumber_members hlast []
        rw [List.append_nil] at hlastEnds
        exact hlastEnds.cut hcutOthers
      simp only [readMember_spaced slots slot.key draft hinner hends, hnext]
      refine ih hothers hrest hlast hcutOthers ?_
      rw [List.length_append] at hfuel
      omega

/-- An object that is cut short is truncated, if fields are read from all its members. -/
theorem readComplete_cut {α : Type} (hcomplete : Complete slots) {empty filled : Draft}
    (finish : Draft → Option α) {members : List (Quoted × Value)}
    (hnotices : ∀ member ∈ members, ∃ slot ∈ slots, member.1.string? = some slot.key ∧
      Notices slot.read member.2)
    (hfill : fillMembers slots empty members = some filled)
    (hspaced : Spaced (Value.object members).tokens text) (hcut : Cut front text) :
    readComplete (slots.map Slot.field) empty finish front = .error .truncated := by
  obtain ⟨blanks, behind, hblanks, hbehind, rfl⟩ := spaced_cons_iff.mp hspaced
  have htruncated : readRecord (slots.map Slot.field) empty front = .error .truncated := by
    rw [readRecord]
    rcases cut_append_iff.mp hcut with hshort | ⟨part, rfl, hpart⟩
    · rw [skipBlanks_eq_nil_iff.mpr (hblanks.cut hshort)]
    rw [skipBlanks_append hblanks]
    rcases cut_cons_iff.mp hpart with rfl | ⟨part, rfl, hcutMembers⟩
    · rfl
    · rw [skipBlanks_cons rfl]
      exact (if_pos rfl).trans
        (readMembers_cut hcomplete hnotices hfill hbehind hcutMembers (Nat.lt_succ_self _))
  rw [readComplete, htruncated]
  rfl

end Records

end Json
end Chip8
