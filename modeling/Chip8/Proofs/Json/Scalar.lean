import Chip8.Json.Scalar
import Chip8.Proofs.Json.Spaced

/-!
# Reading written values of a known kind

* `Value.natural?`, `Value.truth?`, `Value.optional?`, `Value.choice?` — what a value means where a
  value of one kind is expected.
* `Decodes` — a reader gives what every written value means, and refuses a value that means nothing.
* `decodes_readNatural`, `decodes_readBool`, `decodes_readOptional`, `decodes_readChoice` — the
  readers of the four kinds do.
-/

namespace Chip8
namespace Json

variable {α β : Type}

/-! ## Meanings -/

namespace Value

/-- The natural number below a limit that a value is. -/
def natural? (limit : Nat) : Value → Option Nat
  | .number form => form.natural?.filter (· < limit)
  | _ => none

def uint16? (value : Value) : Option UInt16 := (value.natural? UInt16.size).map UInt16.ofNat

def uint64? (value : Value) : Option UInt64 := (value.natural? UInt64.size).map UInt64.ofNat

def truth? : Value → Option Bool
  | .truth value => some value
  | _ => none

/-- What a value means where null stands for a missing one. -/
def optional? (meaning : Value → Option α) : Value → Option (Option α)
  | .null => some none
  | value => (meaning value).map some

/-- What is named by a string, or by the key of the only member of an object whose value is null. -/
def choice? (named : String → Option α) : Value → Option α
  | .string name => name.string?.bind named
  | .object [(name, .null)] => name.string?.bind named
  | _ => none

end Value

/-- A reader gives the meaning of a written value, and finds every value invalid that has none. -/
structure Decodes (read : Reader α) (meaning : Value → Option α) : Prop where
  value : ∀ {value : Value} {text rest : List UInt8}, Spaced value.tokens text →
    EndsNumber rest → read (text ++ rest) = outcome (meaning value) rest
  /-- The end of an array is no value. -/
  bracket : ∀ {text rest : List UInt8}, skipBlanks text = closeBracket :: rest →
    read text = .error .invalid

theorem Decodes.map {read : Reader α} {meaning : Value → Option α} (hread : Decodes read meaning)
    (f : α → β) : Decodes (Reader.map f read) fun value => (meaning value).map f where
  value := by
    intro value text rest hspaced hends
    rw [Reader.map, hread.value hspaced hends]
    show _ = outcome ((meaning value).map f) rest
    cases meaning value <;> rfl
  bracket := by
    intro text rest hskip
    rw [Reader.map, hread.bracket hskip]
    rfl

/-! ## Values of another kind -/

section Kinds

variable {value : Value} {front text rest : List UInt8}

theorem wrongKind_number {byte : UInt8} (hbyte : byte = ascii '-' ∨ isDigit byte = true) :
    wrongKind (byte :: text) = refusalOf (readNumber .truncated (byte :: text)) := by
  rw [wrongKind, if_neg, if_neg, if_neg, if_pos hbyte]
  all_goals exact ne_of_startsNumber hbyte (by decide)

/-- A value of another kind is invalid, for it is read whole. -/
theorem wrongKind_starts (hstarts : Starts rest value front) (hends : EndsNumber rest) :
    wrongKind front = .invalid := by
  cases hstarts with
  | null => rw [wrongKind, if_pos rfl, literal_append, refusalOf]
  | yes => rw [wrongKind, if_neg (by decide), if_pos rfl, literal_append, refusalOf]
  | no =>
    rw [wrongKind, if_neg (by decide), if_neg (by decide), if_pos rfl, literal_append, refusalOf]
  | number form hbyte htext =>
    rw [wrongKind_number hbyte, htext, readNumber_text .truncated form hends, refusalOf]
  | string string =>
    rw [wrongKind, if_neg (by decide), if_neg (by decide), if_neg (by decide),
      if_neg (by decide), if_pos rfl, readString_body]
    cases string.string? <;> rfl
  | array items htext => rfl
  | object members htext => rfl

theorem readNatural_spaced (limit : Nat) (hspaced : Spaced value.tokens text)
    (hends : EndsNumber rest) :
    readNatural limit (text ++ rest) = outcome (value.natural? limit) rest := by
  have hstarts := starts_of_spaced hspaced rest
  have hwrong := wrongKind_starts hstarts hends
  rw [readNatural]
  generalize skipBlanks (text ++ rest) = front at hstarts hwrong
  cases hstarts with
  | number form hbyte htext =>
    simp only [if_pos hbyte, htext, readNumber_text .truncated form hends, bind, Except.bind,
      Value.natural?]
    cases form.natural? with
    | none => rfl
    | some value =>
      rw [Option.filter_some]
      by_cases hlimit : value < limit <;> simp only [hlimit, decide_true, decide_false] <;> rfl
  | _ =>
    simp only [hwrong]
    exact if_neg (by decide)

theorem decodes_readNatural (limit : Nat) :
    Decodes (readNatural limit) (Value.natural? limit) where
  value := readNatural_spaced limit
  bracket hskip := by
    rw [readNatural, hskip]
    rfl

theorem decodes_readUInt16 : Decodes readUInt16 Value.uint16? :=
  (decodes_readNatural UInt16.size).map UInt16.ofNat

theorem decodes_readUInt64 : Decodes readUInt64 Value.uint64? :=
  (decodes_readNatural UInt64.size).map UInt64.ofNat

theorem readBool_spaced (hspaced : Spaced value.tokens text) (hends : EndsNumber rest) :
    readBool (text ++ rest) = outcome value.truth? rest := by
  have hstarts := starts_of_spaced hspaced rest
  have hwrong := wrongKind_starts hstarts hends
  rw [readBool]
  generalize skipBlanks (text ++ rest) = front at hstarts hwrong
  cases hstarts with
  | yes | no =>
    simp only [literal_append]
    rfl
  | number form hbyte htext =>
    simp only [hwrong]
    rw [if_neg (ne_of_startsNumber hbyte (by decide)),
      if_neg (ne_of_startsNumber hbyte (by decide))]
    rfl
  | _ =>
    simp only [hwrong]
    rfl

theorem decodes_readBool : Decodes readBool Value.truth? where
  value := readBool_spaced
  bracket hskip := by
    rw [readBool, hskip]
    rfl

theorem readOptional_spaced {read : Reader α} {meaning : Value → Option α}
    (hread : Decodes read meaning) (hspaced : Spaced value.tokens text)
    (hends : EndsNumber rest) :
    readOptional read (text ++ rest) = outcome (value.optional? meaning) rest := by
  have hstarts := starts_of_spaced hspaced rest
  obtain ⟨byte, token, tokens, htokens, hbyte, -⟩ := value.tokens_eq_cons
  obtain ⟨bare, hbare, hskip⟩ := exists_bare (htokens ▸ hspaced) hbyte
  have hpresent := (hread.map some).value (htokens ▸ hbare) hends
  rw [readOptional]
  rw [← hskip] at hpresent
  generalize skipBlanks (text ++ rest) = front at hstarts hpresent
  cases hstarts with
  | null =>
    simp only [literal_append]
    rfl
  | number form hbyte htext =>
    exact (if_neg (ne_of_startsNumber hbyte (by decide))).trans hpresent
  | _ => exact (if_neg (by decide)).trans hpresent

theorem Decodes.optional {read : Reader α} {meaning : Value → Option α}
    (hread : Decodes read meaning) :
    Decodes (readOptional read) (Value.optional? meaning) where
  value := readOptional_spaced hread
  bracket hskip := by
    rw [readOptional, hskip]
    exact (if_neg (by decide)).trans ((hread.map some).bracket (skipBlanks_cons rfl _))

/-! ## Names -/

theorem readNull_spaced (hspaced : Spaced value.tokens text) (hends : EndsNumber rest) :
    readNull (text ++ rest) =
      match value with
      | .null => .ok rest
      | _ => .error .invalid := by
  have hstarts := starts_of_spaced hspaced rest
  have hwrong := wrongKind_starts hstarts hends
  rw [readNull]
  generalize skipBlanks (text ++ rest) = front at hstarts hwrong
  cases hstarts with
  | null => exact literal_append _ rest
  | number form hbyte htext =>
    simp only [hwrong]
    exact if_neg (ne_of_startsNumber hbyte (by decide))
  | _ =>
    simp only [hwrong]
    exact if_neg (by decide)

theorem readName_body (named : String → Option α) (name : Quoted) (rest : List UInt8) :
    readName named (name.body ++ rest) = outcome (name.string?.bind named) rest := by
  rw [readName, readString_body]
  cases name.string? with
  | none => rfl
  | some name =>
    simp only [outcome, bind, Except.bind, Option.bind_some]
    cases named name <;> rfl

theorem Value.choice?_object (named : String → Option α) (name : Quoted) (value : Value)
    (more : List (Quoted × Value)) :
    Value.choice? named (.object ((name, value) :: more)) =
      (name.string?.bind named).bind fun found =>
        match value, more with
        | .null, [] => some found
        | _, _ => none := by
  rw [Value.choice?.eq_def]
  cases hnamed : name.string?.bind named with
  | none => cases value <;> cases more <;> simp [hnamed]
  | some found => cases value <;> cases more <;> simp [hnamed]

theorem readChoice_spaced (named : String → Option α) (hspaced : Spaced value.tokens text) :
    readChoice named (text ++ rest) = outcome (value.choice? named) rest := by
  have hstarts := starts_of_spaced hspaced rest
  rw [readChoice]
  generalize skipBlanks (text ++ rest) = front at hstarts
  cases hstarts with
  | string name =>
    exact readName_body named name rest
  | object members htext =>
    refine (if_neg (by decide)).trans ((if_pos rfl).trans ?_)
    cases members with
    | nil =>
      rw [symbol_other htext rfl (by decide)]
      rfl
    | cons member more =>
      obtain ⟨name, value⟩ := member
      obtain ⟨behind, hbehind, hskip⟩ := skipBlanks_token htext rfl
      obtain ⟨pair, hpair, hcolon⟩ := symbol_token hbehind rfl
      obtain ⟨inner, last, hinner, hlast, rfl⟩ := spaced_append_iff.mp hpair
      rw [symbol_of_skipBlanks (hskip rest), if_pos rfl]
      show (readName named (name.body ++ _) >>= _) = _
      rw [readName_body, Value.choice?_object]
      cases name.string?.bind named with
      | none => rfl
      | some found =>
        show (symbol colon (_ ++ rest) >>= _) = _
        rw [hcolon]
        show (readNull (_ ++ rest) >>= _) = _
        rw [List.append_assoc, readNull_spaced hinner (endsNumber_members hlast rest)]
        cases value with
        | null =>
          show (symbol closeBrace (_ ++ rest) >>= _) = _
          cases more with
          | nil =>
            obtain ⟨_, hnil, hclose⟩ := symbol_token hlast rfl
            rw [hclose, spaced_nil_iff.mp hnil]
            rfl
          | cons member more =>
            rw [symbol_other hlast rfl (by decide)]
            rfl
        | _ => rfl
  | number form hbyte htext =>
    exact (if_neg (ne_of_startsNumber hbyte (by decide))).trans
      (if_neg (ne_of_startsNumber hbyte (by decide)))
  | _ => rfl

theorem decodes_readChoice (named : String → Option α) :
    Decodes (readChoice named) (Value.choice? named) where
  value hspaced _ := readChoice_spaced named hspaced
  bracket hskip := by
    rw [readChoice, hskip]
    rfl

end Kinds

end Json
end Chip8
