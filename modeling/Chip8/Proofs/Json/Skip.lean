import Chip8.Json.Skip
import Chip8.Proofs.Json.Spaced

/-!
# Passing over written values

A written value of any depth is passed over whole.  The fuel is counted in steps: two for every
byte are enough, since a step that takes no byte is followed by one that does.

* `Leads` — some steps lead from one place to another, whatever the fuel.
* `leads_value`, `leads_items`, `leads_members` — the steps through a value and through the entries
  of its brackets.
* `skipValue_spaced` — what is left behind a written value.
-/

namespace Chip8
namespace Json

/-! ## Places -/

/-- A place in a text that is passed over. -/
structure Place where
  awaited : Awaited
  opened : List Bracket
  text : List UInt8

namespace Place

/-- What comes of passing over the text behind a place. -/
def ending (fuel : Nat) (place : Place) : Except Refusal (List UInt8) :=
  skipFrom fuel place.awaited place.opened place.text

end Place

/-- No more than some steps lead from one place to another. -/
def Leads (budget : Nat) (first last : Place) : Prop :=
  ∃ steps, steps ≤ budget ∧ ∀ fuel, first.ending (fuel + steps) = last.ending fuel

theorem Leads.step {first last : Place}
    (hstep : ∀ fuel, first.ending (fuel + 1) = last.ending fuel) : Leads 1 first last :=
  ⟨1, Nat.le_refl 1, hstep⟩

theorem Leads.mono {budget larger : Nat} {first last : Place} (hleads : Leads budget first last)
    (hlarger : budget ≤ larger) : Leads larger first last := by
  obtain ⟨steps, hsteps, hending⟩ := hleads
  exact ⟨steps, Nat.le_trans hsteps hlarger, hending⟩

theorem Leads.trans {budget more : Nat} {first middle last : Place}
    (hfirst : Leads budget first middle) (hlast : Leads more middle last) :
    Leads (more + budget) first last := by
  obtain ⟨steps, hsteps, hending⟩ := hfirst
  obtain ⟨others, hothers, hrest⟩ := hlast
  refine ⟨others + steps, Nat.add_le_add hothers hsteps, fun fuel => ?_⟩
  rw [← Nat.add_assoc, hending, hrest]

/-! ## Steps -/

section Steps

variable {opened : List Bracket} {bracket : Bracket} {byte : UInt8}
  {text front behind : List UInt8}

theorem leads_scalar (hskip : skipBlanks text = byte :: front) (hbracket : byte ≠ openBracket)
    (hbrace : byte ≠ openBrace) (hscalar : skipScalar byte front = .ok behind) :
    Leads 1 ⟨.value, opened, text⟩ ⟨.next, opened, behind⟩ := by
  refine .step fun fuel => ?_
  show skipFrom (fuel + 1) .value opened text = skipFrom fuel .next opened behind
  simp only [skipFrom, hskip, if_neg hbracket, if_neg hbrace, hscalar]
  rfl

theorem leads_openBracket (opened : List Bracket) (hskip : skipBlanks text = openBracket :: front) :
    Leads 1 ⟨.value, opened, text⟩ ⟨.first, .array :: opened, front⟩ := by
  refine .step fun fuel => ?_
  show skipFrom (fuel + 1) .value opened text = skipFrom fuel .first (.array :: opened) front
  simp only [skipFrom, hskip, if_pos]

theorem leads_openBrace (opened : List Bracket) (hskip : skipBlanks text = openBrace :: front) :
    Leads 1 ⟨.value, opened, text⟩ ⟨.first, .object :: opened, front⟩ := by
  refine .step fun fuel => ?_
  show skipFrom (fuel + 1) .value opened text = skipFrom fuel .first (.object :: opened) front
  have hbracket : openBrace ≠ openBracket := by decide
  simp only [skipFrom, hskip, if_neg hbracket, if_pos]

/-- What comes behind an opening bracket or behind an entry. -/
def Awaited.entry (isFirst : Bool) : Awaited := if isFirst then .first else .next

theorem leads_close (bracket : Bracket) (isFirst : Bool)
    (hskip : skipBlanks text = bracket.close :: front) :
    Leads 1 ⟨.entry isFirst, bracket :: opened, text⟩ ⟨.next, opened, front⟩ := by
  refine .step fun fuel => ?_
  cases isFirst with
  | true =>
    show skipFrom (fuel + 1) .first (bracket :: opened) text = skipFrom fuel .next opened front
    simp only [skipFrom, hskip, if_pos]
  | false =>
    show skipFrom (fuel + 1) .next (bracket :: opened) text = skipFrom fuel .next opened front
    simp only [skipFrom, hskip, if_pos]

/-- What is left of a bracket behind its last entry, or of one without entries. -/
theorem leads_end (bracket : Bracket) (opened : List Bracket) (isFirst : Bool)
    (hspaced : Spaced [[bracket.close]] text) (rest : List UInt8) :
    Leads (2 * text.length) ⟨.entry isFirst, bracket :: opened, text ++ rest⟩
      ⟨.next, opened, rest⟩ := by
  have hclose : isBlank bracket.close = false := by cases bracket <;> rfl
  obtain ⟨behind, hbehind, hskip⟩ := skipBlanks_token hspaced hclose
  have hshort : (bracket.close :: behind).length ≤ text.length := length_le_of_skipBlanks hskip
  rw [spaced_nil_iff.mp hbehind] at hskip hshort
  rw [List.length_singleton] at hshort
  exact (leads_close bracket isFirst (hskip rest)).mono (by omega)

theorem leads_first (hskip : skipBlanks text = byte :: front) (hopen : byte ≠ bracket.close)
    (hkey : skipKey bracket (byte :: front) = .ok behind) :
    Leads 1 ⟨.entry true, bracket :: opened, text⟩ ⟨.value, bracket :: opened, behind⟩ := by
  refine .step fun fuel => ?_
  show skipFrom (fuel + 1) .first (bracket :: opened) text =
    skipFrom fuel .value (bracket :: opened) behind
  simp only [skipFrom, hskip, if_neg hopen, hkey]
  rfl

theorem leads_next (hskip : skipBlanks text = comma :: front)
    (hkey : skipKey bracket front = .ok behind) :
    Leads 1 ⟨.entry false, bracket :: opened, text⟩ ⟨.value, bracket :: opened, behind⟩ := by
  refine .step fun fuel => ?_
  show skipFrom (fuel + 1) .next (bracket :: opened) text =
    skipFrom fuel .value (bracket :: opened) behind
  have hopen : comma ≠ bracket.close := by cases bracket <;> decide
  simp only [skipFrom, hskip, if_neg hopen, if_pos, hkey]
  rfl

/-- An entry of a bracket is reached over what stands in front of it. -/
theorem leads_entry (bracket : Bracket) (opened : List Bracket) (isFirst : Bool)
    {tokens : List Token} {token : Token}
    (hspaced : Spaced (separator isFirst ++ (byte :: token) :: tokens) text)
    (hbyte : isBlank byte = false) (hopen : byte ≠ bracket.close) :
    ∃ entry, Spaced ((byte :: token) :: tokens) entry ∧ entry.length ≤ text.length ∧
      ∀ rest behind, skipKey bracket (entry ++ rest) = .ok behind →
        Leads 1 ⟨.entry isFirst, bracket :: opened, text ++ rest⟩
          ⟨.value, bracket :: opened, behind⟩ := by
  cases isFirst with
  | true =>
    -- nothing but blanks stands in front, and a key is read from behind them
    obtain ⟨entry, hentry, hskip⟩ := exists_bare hspaced hbyte
    obtain ⟨_, -, hfront⟩ := skipBlanks_token hspaced hbyte
    refine ⟨entry, hentry, length_le_of_skipBlanks hskip, fun rest behind hkey => ?_⟩
    rw [← hskip, hfront] at hkey
    exact leads_first (hfront rest) hopen hkey
  | false =>
    have hcomma : isBlank comma = false := rfl
    obtain ⟨entry, hentry, hskip⟩ := skipBlanks_token hspaced hcomma
    have hlength : (comma :: entry).length ≤ text.length := length_le_of_skipBlanks hskip
    exact ⟨entry, hentry, Nat.le_of_succ_le hlength, fun rest behind => leads_next (hskip rest)⟩

end Steps

/-- The key of a member is passed over with its colon. -/
theorem skipKey_member {key : Quoted} {tokens : List Token} {text : List UInt8}
    (hspaced : Spaced (key.text :: [colon] :: tokens) text) :
    ∃ behind, Spaced tokens behind ∧ behind.length ≤ text.length ∧
      ∀ rest, skipKey .object (text ++ rest) = .ok (behind ++ rest) := by
  obtain ⟨member, hmember, hquote⟩ := skipBlanks_token hspaced rfl
  obtain ⟨behind, hbehind, hcolon⟩ := skipBlanks_token hmember rfl
  have hlength : (quote :: (key.body ++ member)).length ≤ text.length :=
    length_le_of_skipBlanks fun rest => by rw [hquote, List.cons_append, List.append_assoc]
  have hshort : (colon :: behind).length ≤ member.length := length_le_of_skipBlanks hcolon
  refine ⟨behind, hbehind, ?_, fun rest => ?_⟩
  · simp only [List.length_cons, List.length_append] at hlength hshort
    omega
  · show (symbol quote (text ++ rest) >>= _) = _
    rw [symbol_of_skipBlanks (hquote rest), if_pos rfl]
    show (skipString (key.body ++ (member ++ rest)) >>= _) = _
    rw [skipString_body]
    show symbol colon (member ++ rest) = _
    rw [symbol_of_skipBlanks (hcolon rest), if_pos rfl]
    rfl

/-! ## Values -/

theorem skipScalar_number {byte : UInt8} {text : List UInt8}
    (hbyte : byte = ascii '-' ∨ isDigit byte = true) :
    skipScalar byte text = (readNumber .invalid (byte :: text)).map Prod.snd := by
  rw [skipScalar, if_neg, if_neg, if_neg, if_neg, if_pos hbyte]
  all_goals exact ne_of_startsNumber hbyte (by decide)

theorem length_pos_of_spaced {value : Value} {text : List UInt8}
    (hspaced : Spaced value.tokens text) : 0 < text.length := by
  obtain ⟨byte, token, tokens, htokens, -⟩ := value.tokens_eq_cons
  rw [htokens] at hspaced
  obtain ⟨blanks, behind, -, -, rfl⟩ := spaced_cons_iff.mp hspaced
  simp only [List.length_append, List.length_cons]
  omega

/-- A literal, a number or a string is passed over in one step. -/
theorem leads_simple (opened : List Bracket) {value : Value} {text rest : List UInt8}
    (hspaced : Spaced value.tokens text) (hends : EndsNumber rest)
    (harray : ∀ items, value ≠ .array items) (hobject : ∀ members, value ≠ .object members) :
    Leads 1 ⟨.value, opened, text ++ rest⟩ ⟨.next, opened, rest⟩ := by
  have hstarts := starts_of_spaced hspaced rest
  generalize hskip : skipBlanks (text ++ rest) = front at hstarts
  cases hstarts with
  | null => exact leads_scalar hskip (by decide) (by decide) (literal_append _ rest)
  | yes => exact leads_scalar hskip (by decide) (by decide) (literal_append _ rest)
  | no => exact leads_scalar hskip (by decide) (by decide) (literal_append _ rest)
  | number form hbyte htext =>
    refine leads_scalar hskip (ne_of_startsNumber hbyte (by decide))
      (ne_of_startsNumber hbyte (by decide)) ?_
    rw [skipScalar_number hbyte, htext, readNumber_text .invalid form hends]
    rfl
  | string string => exact leads_scalar hskip (by decide) (by decide) (skipString_body string rest)
  | array items => exact absurd rfl (harray items)
  | object members => exact absurd rfl (hobject members)

mutual

/-- A value is passed over whole. -/
theorem leads_value (opened : List Bracket) (value : Value) {text : List UInt8}
    (hspaced : Spaced value.tokens text) {rest : List UInt8} (hends : EndsNumber rest) :
    Leads (2 * text.length - 1) ⟨.value, opened, text ++ rest⟩ ⟨.next, opened, rest⟩ := by
  have hlength := length_pos_of_spaced hspaced
  cases value with
  | array items =>
    obtain ⟨entries, hentries, hskip⟩ := skipBlanks_token hspaced rfl
    -- the bracket is a byte and takes one step, so the end of the array may take one as well
    have hopens := leads_openBracket opened (hskip rest)
    have hitems := leads_items opened true items hentries rest
    have hshort : (openBracket :: entries).length ≤ text.length := length_le_of_skipBlanks hskip
    rw [List.length_cons] at hshort
    exact (hopens.trans hitems).mono (by omega)
  | object members =>
    obtain ⟨entries, hentries, hskip⟩ := skipBlanks_token hspaced rfl
    have hopens := leads_openBrace opened (hskip rest)
    have hmembers := leads_members opened true members hentries rest
    have hshort : (openBrace :: entries).length ≤ text.length := length_le_of_skipBlanks hskip
    rw [List.length_cons] at hshort
    exact (hopens.trans hmembers).mono (by omega)
  | _ => exact (leads_simple opened hspaced hends nofun nofun).mono (by omega)

/-- The items of an array are passed over up to its end. -/
theorem leads_items (opened : List Bracket) (isFirst : Bool) (items : List Value)
    {text : List UInt8} (hspaced : Spaced (itemTokens isFirst items) text) (rest : List UInt8) :
    Leads (2 * text.length) ⟨.entry isFirst, .array :: opened, text ++ rest⟩
      ⟨.next, opened, rest⟩ := by
  cases items with
  | nil =>
    exact leads_end .array opened isFirst hspaced rest
  | cons item items =>
    obtain ⟨byte, token, tokens, htokens, hbyte, hopen⟩ := item.tokens_eq_cons
    rw [itemTokens, htokens] at hspaced
    obtain ⟨entry, hentry, hshort, hleads⟩ :=
      leads_entry .array opened isFirst hspaced hbyte hopen
    have hparts : Spaced (item.tokens ++ itemTokens false items) entry := htokens ▸ hentry
    obtain ⟨inner, last, hinner, hlast, rfl⟩ := spaced_append_iff.mp hparts
    have hlength := length_pos_of_spaced hinner
    have hitem := leads_value (.array :: opened) item hinner (endsNumber_items hlast rest)
    have hitems := leads_items opened false items hlast rest
    -- entering the item takes a step and may take no byte, but the item itself leaves one over
    have hentered := hleads rest (inner ++ (last ++ rest)) (by rw [List.append_assoc]; rfl)
    rw [List.length_append] at hshort
    exact ((hentered.trans hitem).trans hitems).mono (by omega)

/-- The members of an object are passed over up to its end. -/
theorem leads_members (opened : List Bracket) (isFirst : Bool) (members : List (Quoted × Value))
    {text : List UInt8} (hspaced : Spaced (memberTokens isFirst members) text)
    (rest : List UInt8) :
    Leads (2 * text.length) ⟨.entry isFirst, .object :: opened, text ++ rest⟩
      ⟨.next, opened, rest⟩ := by
  cases members with
  | nil =>
    exact leads_end .object opened isFirst hspaced rest
  | cons member members =>
    obtain ⟨key, value⟩ := member
    obtain ⟨entry, hentry, hshort, hleads⟩ :=
      leads_entry .object opened isFirst hspaced rfl (by decide)
    obtain ⟨pair, hpair, hshorter, hkey⟩ := skipKey_member hentry
    obtain ⟨inner, last, hinner, hlast, rfl⟩ := spaced_append_iff.mp hpair
    have hlength := length_pos_of_spaced hinner
    have hvalue := leads_value (.object :: opened) value hinner (endsNumber_members hlast rest)
    have hmembers := leads_members opened false members hlast rest
    have hentered := hleads rest (inner ++ (last ++ rest)) (by rw [hkey, List.append_assoc])
    rw [List.length_append] at hshorter
    exact ((hentered.trans hvalue).trans hmembers).mono (by omega)

end

/-- Behind a written value is left what stands behind it. -/
theorem skipValue_spaced {value : Value} {text rest : List UInt8}
    (hspaced : Spaced value.tokens text) (hends : EndsNumber rest) :
    skipValue (text ++ rest) = .ok rest := by
  obtain ⟨steps, hsteps, hending⟩ := leads_value [] value hspaced hends
  have hfuel : 2 * (text ++ rest).length + 2 =
      2 * (text ++ rest).length + 2 - steps + steps := by
    rw [List.length_append]
    omega
  rw [skipValue, hfuel]
  refine (hending _).trans ?_
  show skipFrom _ .next [] rest = .ok rest
  rw [skipFrom]

end Json
end Chip8
