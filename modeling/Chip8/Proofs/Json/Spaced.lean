import Chip8.Proofs.Json.Number
import Chip8.Proofs.Json.Text
import Mathlib.Data.List.DropRight

/-!
# Texts of tokens

What the smallest readers make of the text of some tokens, whatever blanks stand between them.

* `spaced_append_iff` — a text of two sequences of tokens is a text of the one and a text of the
  other.
* `skipBlanks_token`, `symbol_token` — the first token of a text, and what stands behind it.
* `Starts`, `starts_of_spaced` — what stands at the front of the text of a value.
-/

namespace Chip8
namespace Json

/-! ## Blanks -/

theorem blank_nil : Blank [] := fun _ hnone => absurd hnone List.not_mem_nil

theorem skipBlanks_append {blanks : List UInt8} (hblanks : Blank blanks) (text : List UInt8) :
    skipBlanks (blanks ++ text) = skipBlanks text :=
  List.dropWhile_append_of_pos hblanks

theorem skipBlanks_cons {byte : UInt8} (hbyte : isBlank byte = false) (text : List UInt8) :
    skipBlanks (byte :: text) = byte :: text :=
  List.dropWhile_cons_of_neg (by simp [hbyte])

theorem skipBlanks_eq_nil_iff {text : List UInt8} : skipBlanks text = [] ↔ Blank text :=
  List.dropWhile_eq_nil_iff

theorem skipBlanks_skipBlanks (text : List UInt8) :
    skipBlanks (skipBlanks text) = skipBlanks text :=
  List.dropWhile_idempotent isBlank text

/-- What is left behind blanks is no longer than the text. -/
theorem length_le_of_skipBlanks {text front : List UInt8}
    (hskip : ∀ rest, skipBlanks (text ++ rest) = front ++ rest) : front.length ≤ text.length := by
  have hnil := hskip []
  rw [List.append_nil, List.append_nil] at hnil
  rw [← hnil]
  exact (List.dropWhile_sublist isBlank).length_le

theorem goesOn_of_isBlank {byte : UInt8} (hblank : isBlank byte = true) : goesOn byte = false := by
  simp only [isBlank, Bool.or_eq_true, beq_iff_eq] at hblank
  rcases hblank with ((rfl | rfl) | rfl) | rfl <;> rfl

theorem isBlank_of_goesOn {byte : UInt8} (hgoes : goesOn byte = true) : isBlank byte = false := by
  cases hblank : isBlank byte with
  | false => rfl
  | true => rw [goesOn_of_isBlank hblank] at hgoes; contradiction

theorem endsNumber_blank {blanks rest : List UInt8} (hblanks : Blank blanks)
    (hends : EndsNumber rest) : EndsNumber (blanks ++ rest) := by
  cases blanks with
  | nil => exact hends
  | cons byte blanks =>
    exact endsNumber_cons (goesOn_of_isBlank (hblanks byte (List.mem_cons_self ..))) _

/-! ## Tokens -/

theorem spaced_nil_iff {text : List UInt8} : Spaced [] text ↔ text = [] :=
  ⟨fun hspaced => by cases hspaced; rfl, fun hnil => hnil ▸ .nil⟩

theorem spaced_cons_iff {token : Token} {tokens : List Token} {text : List UInt8} :
    Spaced (token :: tokens) text ↔
      ∃ blanks behind, Blank blanks ∧ Spaced tokens behind ∧
        text = blanks ++ (token ++ behind) := by
  constructor
  · intro hspaced
    cases hspaced with
    | cons hblanks hbehind => exact ⟨_, _, hblanks, hbehind, rfl⟩
  · rintro ⟨blanks, behind, hblanks, hbehind, rfl⟩
    exact .cons hblanks hbehind

theorem spaced_append_iff {first second : List Token} {text : List UInt8} :
    Spaced (first ++ second) text ↔
      ∃ front back, Spaced first front ∧ Spaced second back ∧ text = front ++ back := by
  induction first generalizing text with
  | nil =>
    constructor
    · exact fun hspaced => ⟨[], text, .nil, hspaced, rfl⟩
    · rintro ⟨front, back, hfront, hback, rfl⟩
      rwa [spaced_nil_iff.mp hfront]
  | cons token tokens ih =>
    rw [List.cons_append, spaced_cons_iff]
    constructor
    · rintro ⟨blanks, behind, hblanks, hbehind, rfl⟩
      obtain ⟨front, back, hfront, hback, rfl⟩ := ih.mp hbehind
      exact ⟨_, back, .cons hblanks hfront, hback, by simp only [List.append_assoc]⟩
    · rintro ⟨front, back, hfront, hback, rfl⟩
      obtain ⟨blanks, behind, hblanks, hbehind, rfl⟩ := spaced_cons_iff.mp hfront
      exact ⟨blanks, behind ++ back, hblanks, ih.mpr ⟨behind, back, hbehind, hback, rfl⟩,
        by simp only [List.append_assoc]⟩

/-- There may always be more blanks. -/
theorem Spaced.blank {token : Token} {tokens : List Token} {text : List UInt8}
    (hspaced : Spaced (token :: tokens) text) {blanks : List UInt8} (hblanks : Blank blanks) :
    Spaced (token :: tokens) (blanks ++ text) := by
  obtain ⟨others, behind, hothers, hbehind, rfl⟩ := spaced_cons_iff.mp hspaced
  rw [← List.append_assoc]
  refine .cons (fun byte hbyte => ?_) hbehind
  exact (List.mem_append.mp hbyte).elim (hblanks byte) (hothers byte)

/-- There need not be any blanks. -/
theorem spaced_flatten (tokens : List Token) : Spaced tokens tokens.flatten := by
  induction tokens with
  | nil => exact .nil
  | cons token tokens ih =>
    exact .cons blank_nil ih

theorem spaced_token (token : Token) : Spaced [token] token := by
  simpa using spaced_flatten [token]

/-- The text of a member from its colon on ends with its value. -/
theorem spaced_colon {value : Value} {tokens : List Token} {text : List UInt8}
    (hspaced : Spaced ([colon] :: (value.tokens ++ tokens)) text) :
    ∃ inner last, Spaced ([colon] :: value.tokens) inner ∧ Spaced tokens last ∧
      text = inner ++ last := by
  rw [← List.cons_append] at hspaced
  exact spaced_append_iff.mp hspaced

section Tokens

variable {byte : UInt8} {token : Token} {tokens : List Token} {text : List UInt8}

/-- Blanks in front of a token change nothing for a reader that passes over them. -/
theorem skipBlanks_token (hspaced : Spaced ((byte :: token) :: tokens) text)
    (hbyte : isBlank byte = false) :
    ∃ behind, Spaced tokens behind ∧
      ∀ rest, skipBlanks (text ++ rest) = byte :: (token ++ (behind ++ rest)) := by
  obtain ⟨blanks, behind, hblanks, hbehind, rfl⟩ := spaced_cons_iff.mp hspaced
  refine ⟨behind, hbehind, fun rest => ?_⟩
  rw [List.append_assoc, skipBlanks_append hblanks, List.cons_append, List.cons_append,
    skipBlanks_cons hbyte, List.append_assoc]

/-- The text of a token without the blanks in front of it. -/
theorem exists_bare (hspaced : Spaced ((byte :: token) :: tokens) text)
    (hbyte : isBlank byte = false) :
    ∃ bare, Spaced ((byte :: token) :: tokens) bare ∧
      ∀ rest, skipBlanks (text ++ rest) = bare ++ rest := by
  obtain ⟨behind, hbehind, hskip⟩ := skipBlanks_token hspaced hbyte
  have hbare : Spaced ((byte :: token) :: tokens) ([] ++ (byte :: token ++ behind)) :=
    .cons blank_nil hbehind
  refine ⟨_, hbare, fun rest => ?_⟩
  rw [hskip, List.nil_append, List.cons_append, List.cons_append, List.append_assoc]

theorem endsNumber_token (hspaced : Spaced ((byte :: token) :: tokens) text)
    (hends : goesOn byte = false) (rest : List UInt8) : EndsNumber (text ++ rest) := by
  obtain ⟨blanks, behind, hblanks, -, rfl⟩ := spaced_cons_iff.mp hspaced
  rw [List.append_assoc]
  exact endsNumber_blank hblanks (endsNumber_cons hends _)

theorem symbol_of_skipBlanks {sign : UInt8} {rest : List UInt8}
    (hskip : skipBlanks text = byte :: rest) :
    symbol sign text = if byte = sign then .ok rest else .error .invalid := by
  rw [symbol, hskip]

theorem symbol_skipBlanks (sign : UInt8) (text : List UInt8) :
    symbol sign (skipBlanks text) = symbol sign text := by
  rw [symbol, skipBlanks_skipBlanks, symbol]

theorem symbol_token {sign : UInt8} (hspaced : Spaced ([sign] :: tokens) text)
    (hsign : isBlank sign = false) :
    ∃ behind, Spaced tokens behind ∧ ∀ rest, symbol sign (text ++ rest) = .ok (behind ++ rest) := by
  obtain ⟨behind, hbehind, hskip⟩ := skipBlanks_token hspaced hsign
  refine ⟨behind, hbehind, fun rest => ?_⟩
  rw [symbol_of_skipBlanks (hskip rest), if_pos rfl, List.nil_append]

theorem symbol_other {sign : UInt8} (hspaced : Spaced ((byte :: token) :: tokens) text)
    (hbyte : isBlank byte = false) (hother : byte ≠ sign) (rest : List UInt8) :
    symbol sign (text ++ rest) = .error .invalid := by
  obtain ⟨behind, -, hskip⟩ := skipBlanks_token hspaced hbyte
  rw [symbol_of_skipBlanks (hskip rest), if_neg hother]

end Tokens

theorem literal_append (word rest : List UInt8) : literal word (word ++ rest) = .ok rest := by
  induction word with
  | nil => rfl
  | cons letter word ih => rw [List.cons_append, literal, if_pos rfl, ih]

/-! ## Values -/

/-- What stands at the front of the text of a value, with a text behind it. -/
inductive Starts (rest : List UInt8) : Value → List UInt8 → Prop
  | null : Starts rest .null (ascii 'n' :: (asciiWord "ull" ++ rest))
  | yes : Starts rest (.truth true) (ascii 't' :: (asciiWord "rue" ++ rest))
  | no : Starts rest (.truth false) (ascii 'f' :: (asciiWord "alse" ++ rest))
  | number (form : NumberForm) {byte : UInt8} {text : List UInt8}
      (hbyte : byte = ascii '-' ∨ isDigit byte = true) (htext : byte :: text = form.text ++ rest) :
      Starts rest (.number form) (byte :: text)
  | string (string : Quoted) : Starts rest (.string string) (quote :: (string.body ++ rest))
  | array (items : List Value) {text : List UInt8} (htext : Spaced (itemTokens true items) text) :
      Starts rest (.array items) (openBracket :: (text ++ rest))
  | object (members : List (Quoted × Value)) {text : List UInt8}
      (htext : Spaced (memberTokens true members) text) :
      Starts rest (.object members) (openBrace :: (text ++ rest))

theorem isBlank_of_isDigit {byte : UInt8} (hdigit : isDigit byte = true) :
    isBlank byte = false :=
  isBlank_of_goesOn (by simp [goesOn, hdigit])

theorem isBlank_of_startsNumber {byte : UInt8} (hbyte : byte = ascii '-' ∨ isDigit byte = true) :
    isBlank byte = false :=
  hbyte.elim (· ▸ rfl) isBlank_of_isDigit

/-- The first token of a value starts with no blank and closes no array. -/
theorem Value.tokens_eq_cons (value : Value) :
    ∃ byte token tokens, value.tokens = (byte :: token) :: tokens ∧ isBlank byte = false ∧
      byte ≠ closeBracket := by
  cases value with
  | null => exact ⟨_, _, _, rfl, rfl, by decide⟩
  | truth value => cases value <;> exact ⟨_, _, _, rfl, rfl, by decide⟩
  | number form =>
    obtain ⟨byte, token, htoken, hbyte⟩ := form.text_starts
    refine ⟨byte, token, [], by rw [Value.tokens, htoken], ?_, ?_⟩
    · exact isBlank_of_startsNumber hbyte
    · exact ne_of_startsNumber hbyte (by decide)
  | string string => exact ⟨_, _, _, rfl, rfl, by decide⟩
  | array items => exact ⟨_, _, _, rfl, rfl, by decide⟩
  | object members => exact ⟨_, _, _, rfl, rfl, by decide⟩

theorem starts_of_spaced {value : Value} {text : List UInt8} (hspaced : Spaced value.tokens text)
    (rest : List UInt8) : Starts rest value (skipBlanks (text ++ rest)) := by
  cases value with
  | null =>
    obtain ⟨behind, hbehind, hskip⟩ := skipBlanks_token hspaced rfl
    rw [hskip, spaced_nil_iff.mp hbehind]
    exact .null
  | truth value =>
    cases value with
    | true =>
      obtain ⟨behind, hbehind, hskip⟩ := skipBlanks_token hspaced rfl
      rw [hskip, spaced_nil_iff.mp hbehind]
      exact .yes
    | false =>
      obtain ⟨behind, hbehind, hskip⟩ := skipBlanks_token hspaced rfl
      rw [hskip, spaced_nil_iff.mp hbehind]
      exact .no
  | number form =>
    obtain ⟨byte, token, htoken, hbyte⟩ := form.text_starts
    rw [Value.tokens, htoken] at hspaced
    obtain ⟨behind, hbehind, hskip⟩ := skipBlanks_token hspaced (isBlank_of_startsNumber hbyte)
    rw [hskip, spaced_nil_iff.mp hbehind]
    exact .number form hbyte (by rw [htoken]; rfl)
  | string string =>
    obtain ⟨behind, hbehind, hskip⟩ := skipBlanks_token hspaced rfl
    rw [hskip, spaced_nil_iff.mp hbehind]
    exact .string string
  | array items =>
    obtain ⟨behind, hbehind, hskip⟩ := skipBlanks_token hspaced rfl
    rw [hskip]
    exact .array items hbehind
  | object members =>
    obtain ⟨behind, hbehind, hskip⟩ := skipBlanks_token hspaced rfl
    rw [hskip]
    exact .object members hbehind

/-! ## Entries -/

section Entries

variable {text : List UInt8}

/-- What follows an item continues no number. -/
theorem endsNumber_items {items : List Value} (hspaced : Spaced (itemTokens false items) text)
    (rest : List UInt8) : EndsNumber (text ++ rest) := by
  cases items with
  | nil => exact endsNumber_token hspaced rfl rest
  | cons item items => exact endsNumber_token hspaced rfl rest

/-- What follows a member continues no number. -/
theorem endsNumber_members {members : List (Quoted × Value)}
    (hspaced : Spaced (memberTokens false members) text) (rest : List UInt8) :
    EndsNumber (text ++ rest) := by
  cases members with
  | nil => exact endsNumber_token hspaced rfl rest
  | cons member members => exact endsNumber_token hspaced rfl rest

end Entries

end Json
end Chip8
