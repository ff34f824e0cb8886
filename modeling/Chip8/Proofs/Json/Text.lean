import Chip8.Proofs.Json.Syntax

/-!
# Reading written strings

* `readString_body` — a written string is read as the text that it denotes, and refused if there is
  none.
* `skipString_body` — a written string is passed over whole, whatever it denotes.
* `outcome` — what a reader gives for a value of some meaning or of none.
-/

namespace Chip8
namespace Json

/-- What a reader gives for a value: its meaning, or a refusal if it has none. -/
def outcome {α : Type} (meaning : Option α) (rest : List UInt8) :
    Except Refusal (α × List UInt8) :=
  match meaning with
  | some value => .ok (value, rest)
  | none => .error .invalid

/-! ## Characters as bytes -/

/-- Bytes that stand for themselves in a string. -/
def Ordinary (byte : UInt8) : Prop := byte ≠ quote ∧ byte ≠ backslash ∧ ¬ byte < 0x20

theorem ordinary_of_toNat {byte : UInt8} (hlow : 0x20 ≤ byte.toNat) (hquote : byte.toNat ≠ 0x22)
    (hbackslash : byte.toNat ≠ 0x5C) : Ordinary byte := by
  refine ⟨?_, ?_, fun hcontrol => Nat.not_lt_of_le hlow (UInt8.lt_iff_toNat_lt.mp hcontrol)⟩
  · rintro rfl
    exact hquote rfl
  · rintro rfl
    exact hbackslash rfl

/-- The bytes of a character that may stand for itself do so one by one. -/
theorem ordinary_of_isPlain {letter : Char} (hplain : isPlain letter = true) :
    ∀ byte ∈ String.utf8EncodeChar letter, Ordinary byte := by
  simp only [isPlain, Bool.and_eq_true, decide_eq_true_eq, bne_iff_ne] at hplain
  obtain ⟨⟨hlow, hquote⟩, hbackslash⟩ := hplain
  have hcode : letter.val.toNat = letter.toNat := rfl
  intro byte hbyte
  simp only [String.utf8EncodeChar, hcode] at hbyte
  split at hbyte
  · next hascii =>
    obtain rfl := List.mem_singleton.mp hbyte
    have hnumber : (UInt8.ofNat letter.toNat).toNat = letter.toNat := by
      rw [UInt8.toNat_ofNat']
      omega
    exact ordinary_of_toNat (by omega) (by omega) (by omega)
  · -- beyond ASCII every byte has its first bit set
    have hhigh : ∀ n m : Nat, n < 128 → 128 ≤ m → m < 256 - n → Ordinary (UInt8.ofNat (n + m)) := by
      intro n m hn hm hsum
      have hnumber : (UInt8.ofNat (n + m)).toNat = n + m := by
        rw [UInt8.toNat_ofNat']
        omega
      exact ordinary_of_toNat (by omega) (by omega) (by omega)
    split at hbyte
    · simp only [List.mem_cons, List.not_mem_nil, or_false] at hbyte
      rcases hbyte with rfl | rfl <;> exact hhigh _ _ (by omega) (by omega) (by omega)
    · split at hbyte
      · simp only [List.mem_cons, List.not_mem_nil, or_false] at hbyte
        rcases hbyte with rfl | rfl | rfl <;> exact hhigh _ _ (by omega) (by omega) (by omega)
      · simp only [List.mem_cons, List.not_mem_nil, or_false] at hbyte
        rcases hbyte with rfl | rfl | rfl | rfl <;> exact hhigh _ _ (by omega) (by omega) (by omega)

/-- The bytes of some characters. -/
def encoded (characters : List Char) : List UInt8 := characters.flatMap String.utf8EncodeChar

theorem fromUTF8?_encoded (characters : List Char) :
    String.fromUTF8? (encoded characters).toByteArray = some (String.ofList characters) := by
  have hvalid : (encoded characters).toByteArray.IsValidUTF8 :=
    ByteArray.isValidUTF8_utf8Encode (l := characters)
  rw [String.fromUTF8?, dif_pos hvalid]
  rfl

theorem reverse_encoded_concat (characters : List Char) (letter : Char) :
    (String.utf8EncodeChar letter).reverse ++ (encoded characters).reverse =
      (encoded (characters ++ [letter])).reverse := by
  simp [encoded]

/-! ## Strings without escapes -/

theorem characters?_pmap (letters : List Char)
    (hplain : ∀ letter ∈ letters, isPlain letter = true) :
    Quoted.characters? (letters.pmap Piece.plain hplain) = some letters := by
  induction letters with
  | nil => rfl
  | cons letter letters ih =>
    rw [List.pmap_cons, Quoted.characters?, ih]
    rfl

theorem string?_plain (name : String) (hplain : IsPlainText name) :
    (Quoted.plain name hplain).string? = some name := by
  rw [Quoted.string?, Quoted.plain, characters?_pmap, Option.map_some, String.ofList_toList]

/-- A text of ASCII characters. -/
def IsAscii (text : String) : Prop := text.toList.all (·.toNat < 0x80) = true

instance (text : String) : Decidable (IsAscii text) :=
  inferInstanceAs (Decidable (text.toList.all (·.toNat < 0x80) = true))

theorem isAscii_iff {text : String} :
    IsAscii text ↔ ∀ letter ∈ text.toList, letter.toNat < 0x80 := by
  simp [IsAscii, List.all_eq_true]

theorem utf8EncodeChar_ascii {letter : Char} (hascii : letter.toNat < 0x80) :
    String.utf8EncodeChar letter = [ascii letter] := by
  have hle : letter.val.toNat ≤ 0x7F := Nat.le_of_lt_succ hascii
  simp only [String.utf8EncodeChar, if_pos hle]
  rfl

theorem encoded_ascii {letters : List Char} (hascii : ∀ letter ∈ letters, letter.toNat < 0x80) :
    encoded letters = letters.map ascii := by
  induction letters with
  | nil => rfl
  | cons letter letters ih =>
    obtain ⟨hletter, hletters⟩ := List.forall_mem_cons.mp hascii
    show String.utf8EncodeChar letter ++ encoded letters = _
    rw [utf8EncodeChar_ascii hletter, ih hletters, List.map_cons, List.singleton_append]

/-- A string of ASCII characters is written letter by letter. -/
theorem body_plain (name : String) (hplain : IsPlainText name) (hascii : IsAscii name) :
    (Quoted.plain name hplain).body = asciiWord name ++ [quote] := by
  have hpieces : (Quoted.plain name hplain).flatMap Piece.text =
      encoded name.toList := by
    rw [encoded, Quoted.plain, List.flatMap_def, List.map_pmap, List.flatMap_def]
    simp [Piece.text, List.pmap_eq_map]
  rw [Quoted.body, hpieces, encoded_ascii (isAscii_iff.mp hascii), asciiWord]

/-! ## Hexadecimal digits and short escapes -/

theorem hexValue_byte (sign : HexSign) : hexValue sign.byte = some sign.digit.val := by
  have hall : ∀ digit capital, hexValue (HexSign.byte ⟨digit, capital⟩) = some digit.val := by
    decide
  exact hall sign.digit sign.capital

theorem hexNumber_bytes (a b c d : HexSign) :
    hexNumber [a.byte, b.byte, c.byte, d.byte] = some (codeUnit a b c d) := by
  simp only [hexNumber, List.foldl_cons, List.foldl_nil, hexValue_byte, codeUnit]
  simp
  omega

theorem takeUnit_none (a b c d : HexSign) :
    takeUnit none [a.byte, b.byte, c.byte, d.byte] =
      if isLowHalf (codeUnit a b c d) then none
      else if isHighHalf (codeUnit a b c d) then some (.pairBackslash (codeUnit a b c d), [])
      else some (.plain, utf8 (codeUnit a b c d)) := by
  rw [takeUnit, hexNumber_bytes]
  rfl

theorem shortEscape_letter (escape : Escape) :
    ∃ byte, shortEscape escape.letter = some byte ∧
      String.utf8EncodeChar escape.meaning = [byte] := by
  cases escape <;> exact ⟨_, rfl, rfl⟩

theorem letter_ne_u (escape : Escape) : escape.letter ≠ ascii 'u' := by
  cases escape <;> decide

/-! ## Steps of the reader -/

section Steps

variable {phase next : TextPhase} {byte : UInt8} {bytes found text : List UInt8}

theorem readStringFrom_step (hopen : ¬ (phase = .plain ∧ byte = quote))
    (htake : takeByte phase byte = some (next, bytes)) :
    readStringFrom phase found (byte :: text) =
      readStringFrom next (bytes.reverse ++ found) text := by
  rw [readStringFrom, if_neg hopen, htake]

theorem readStringFrom_stop (hopen : ¬ (phase = .plain ∧ byte = quote))
    (htake : takeByte phase byte = none) :
    readStringFrom phase found (byte :: text) = .error .invalid := by
  rw [readStringFrom, if_neg hopen, htake]

/-- The closing quote ends a string whose bytes are a text. -/
theorem readStringFrom_quote {name : String}
    (hfound : String.fromUTF8? found.reverse.toByteArray = some name) :
    readStringFrom .plain found (quote :: text) = .ok (name, text) := by
  rw [readStringFrom, if_pos ⟨rfl, rfl⟩, hfound]

end Steps

theorem readStringFrom_ordinary (found bytes text : List UInt8)
    (hordinary : ∀ byte ∈ bytes, Ordinary byte) :
    readStringFrom .plain found (bytes ++ text) =
      readStringFrom .plain (bytes.reverse ++ found) text := by
  induction bytes generalizing found with
  | nil => rfl
  | cons byte rest ih =>
    obtain ⟨⟨hquote, hbackslash, hcontrol⟩, hrest⟩ := List.forall_mem_cons.mp hordinary
    have htake : takeByte .plain byte = some (.plain, [byte]) := by
      rw [takeByte, if_neg hbackslash, if_neg hcontrol]
    rw [List.cons_append, readStringFrom_step (fun h => hquote h.2) htake, ih _ hrest]
    simp

/-- The four digits of a code unit are taken in together. -/
theorem readStringFrom_unit (high : Option Nat) (found text : List UInt8) (a b c d : HexSign) :
    readStringFrom (.unit high []) found
        (a.byte :: b.byte :: c.byte :: d.byte :: text) =
      match takeUnit high [a.byte, b.byte, c.byte, d.byte] with
      | some (phase, bytes) => readStringFrom phase (bytes.reverse ++ found) text
      | none => .error .invalid := by
  have hopen : ∀ digits byte, ¬ (TextPhase.unit high digits = .plain ∧ byte = quote) := by simp
  rw [readStringFrom_step (hopen _ _) rfl, readStringFrom_step (hopen _ _) rfl,
    readStringFrom_step (hopen _ _) rfl, readStringFrom, if_neg (hopen _ _)]
  rfl

/-- A backslash, the letter and four digits are a code unit. -/
theorem readStringFrom_plain_unit (found text : List UInt8) (a b c d : HexSign) :
    readStringFrom .plain found (Piece.text (.unit a b c d) ++ text) =
      match takeUnit none [a.byte, b.byte, c.byte, d.byte] with
      | some (phase, bytes) => readStringFrom phase (bytes.reverse ++ found) text
      | none => .error .invalid := by
  rw [← readStringFrom_unit]
  have hbackslash : ¬ (TextPhase.plain = .plain ∧ backslash = quote) := by decide
  have hletter : ¬ (TextPhase.escape = .plain ∧ ascii 'u' = quote) := by decide
  show readStringFrom .plain found (backslash :: ascii 'u' :: _) = _
  rw [readStringFrom_step hbackslash rfl, readStringFrom_step hletter rfl]
  rfl

theorem readStringFrom_plain_short (found text : List UInt8) (escape : Escape) :
    readStringFrom .plain found (Piece.text (.short escape) ++ text) =
      readStringFrom .plain ((String.utf8EncodeChar escape.meaning).reverse ++ found) text := by
  obtain ⟨byte, hmeant, hencoded⟩ := shortEscape_letter escape
  have hbackslash : ¬ (TextPhase.plain = .plain ∧ backslash = quote) := by decide
  have htake : takeByte .escape escape.letter = some (.plain, [byte]) := by
    rw [takeByte, if_neg (letter_ne_u escape), hmeant]
    rfl
  have hletter : ¬ (TextPhase.escape = .plain ∧ escape.letter = quote) := by simp
  show readStringFrom .plain found (backslash :: escape.letter :: text) = _
  rw [readStringFrom_step hbackslash rfl, readStringFrom_step hletter htake, hencoded]
  rfl

/-- What stands behind the first half of a pair and is no code unit is refused. -/
theorem readStringFrom_pair_stop (high : Nat) (found : List UInt8) {byte : UInt8}
    (hbyte : byte ≠ backslash) (text : List UInt8) :
    readStringFrom (.pairBackslash high) found (byte :: text) = .error .invalid :=
  readStringFrom_stop (by simp) (if_neg hbyte)

/-- Behind the first half of a pair nothing may stand but the second half. -/
theorem readStringFrom_pair (high : Nat) (found rest : List UInt8) (string : Quoted) :
    readStringFrom (.pairBackslash high) found (string.flatMap Piece.text ++ quote :: rest) =
      match string with
      | .unit a b c d :: string =>
          if isLowHalf (codeUnit a b c d) then
            readStringFrom .plain
              ((utf8 (joinHalves high (codeUnit a b c d))).reverse ++ found)
              (string.flatMap Piece.text ++ quote :: rest)
          else .error .invalid
      | _ => .error .invalid := by
  have hbackslash : ¬ (TextPhase.pairBackslash high = .plain ∧ backslash = quote) := by simp
  have hletter : ∀ byte, ¬ (TextPhase.pairLetter high = .plain ∧ byte = quote) := by simp
  cases string with
  | nil => exact readStringFrom_pair_stop high found (by decide) rest
  | cons piece string =>
    rw [List.flatMap_cons, List.append_assoc]
    cases piece with
    | plain letter hplain =>
      have hordinary := ordinary_of_isPlain hplain
      rw [Piece.text]
      cases hbytes : String.utf8EncodeChar letter with
      | nil => exact absurd hbytes String.utf8EncodeChar_ne_nil
      | cons byte bytes =>
        rw [hbytes] at hordinary
        exact readStringFrom_pair_stop high found (hordinary byte (List.mem_cons_self ..)).2.1 _
    | short escape =>
      show readStringFrom _ found (backslash :: escape.letter :: _) = _
      rw [readStringFrom_step hbackslash rfl]
      exact readStringFrom_stop (hletter _) (if_neg (letter_ne_u escape))
    | unit a b c d =>
      show readStringFrom _ found
        (backslash :: ascii 'u' :: a.byte :: b.byte :: c.byte :: d.byte :: _) = _
      rw [readStringFrom_step hbackslash rfl, readStringFrom_step (hletter _) rfl,
        readStringFrom_unit, takeUnit, hexNumber_bytes]
      by_cases hlow : isLowHalf (codeUnit a b c d) = true
      · simp only [Option.bind_eq_bind, Option.bind_some, if_pos hlow]
        rfl
      · simp only [Option.bind_eq_bind, Option.bind_some, if_neg hlow]

/-- Behind the first half of a pair nothing may stand but the second half. -/
theorem readStringFrom_high (found rest : List UInt8) {a b c d : HexSign} (string : Quoted)
    (hlow : ¬ isLowHalf (codeUnit a b c d) = true)
    (hhigh : isHighHalf (codeUnit a b c d) = true) :
    readStringFrom .plain found
        (Piece.text (.unit a b c d) ++ (string.flatMap Piece.text ++ quote :: rest)) =
      match string with
      | .unit e f g h :: string =>
          if isLowHalf (codeUnit e f g h) then
            readStringFrom .plain
              ((utf8 (joinHalves (codeUnit a b c d) (codeUnit e f g h))).reverse ++ found)
              (string.flatMap Piece.text ++ quote :: rest)
          else .error .invalid
      | _ => .error .invalid := by
  rw [readStringFrom_plain_unit, takeUnit_none, if_neg hlow, if_pos hhigh]
  exact readStringFrom_pair _ found rest string

theorem outcome_concat (characters : List Char) (letter : Char) (more : Option (List Char))
    (rest : List UInt8) :
    outcome (more.map fun more => String.ofList (characters ++ [letter] ++ more)) rest =
      outcome ((more.map (letter :: ·)).map fun more => String.ofList (characters ++ more))
        rest := by
  cases more with
  | none => rfl
  | some more => simp only [Option.map_some, List.append_assoc, List.singleton_append]

/-- A string is read piece by piece; the characters in front of it have been read already. -/
theorem readStringFrom_text (characters : List Char) (string : Quoted) (rest : List UInt8) :
    readStringFrom .plain (encoded characters).reverse
        (string.flatMap Piece.text ++ quote :: rest) =
      outcome (string.characters?.map fun more => String.ofList (characters ++ more)) rest := by
  fun_induction Quoted.characters? string generalizing characters with
  | case1 =>
    have hfound : String.fromUTF8? (encoded characters).reverse.reverse.toByteArray =
        some (String.ofList characters) := by
      rw [List.reverse_reverse, fromUTF8?_encoded]
    rw [List.flatMap_nil, List.nil_append, readStringFrom_quote hfound, Option.map_some,
      List.append_nil, outcome]
  | case2 letter hplain string ih =>
    rw [List.flatMap_cons, List.append_assoc, Piece.text,
      readStringFrom_ordinary _ _ _ (ordinary_of_isPlain hplain), reverse_encoded_concat, ih,
      outcome_concat]
  | case3 escape string ih =>
    rw [List.flatMap_cons, List.append_assoc, readStringFrom_plain_short, reverse_encoded_concat,
      ih, outcome_concat]
  | case4 a b c d string unit hlow =>
    rw [List.flatMap_cons, List.append_assoc, readStringFrom_plain_unit, takeUnit_none,
      if_pos hlow]
    rfl
  | case5 a b c d unit hlow hhigh e f g h string hsecond ih =>
    rw [List.flatMap_cons, List.append_assoc, readStringFrom_high _ _ _ hlow hhigh]
    simp only [if_pos hsecond]
    rw [utf8, reverse_encoded_concat, ih, outcome_concat]
  | case6 a b c d unit hlow hhigh e f g h string hsecond =>
    rw [List.flatMap_cons, List.append_assoc, readStringFrom_high _ _ _ hlow hhigh]
    simp only [if_neg hsecond]
    rfl
  | case7 a b c d string unit hlow hhigh hother =>
    rw [List.flatMap_cons, List.append_assoc, readStringFrom_high _ _ _ hlow hhigh]
    split
    · exact absurd rfl (hother _ _ _ _ _)
    · rfl
  | case8 a b c d string unit hlow hhigh ih =>
    rw [List.flatMap_cons, List.append_assoc, readStringFrom_plain_unit, takeUnit_none,
      if_neg hlow, if_neg hhigh]
    simp only [utf8]
    rw [reverse_encoded_concat, ih, outcome_concat]

theorem Quoted.body_append (string : Quoted) (rest : List UInt8) :
    string.body ++ rest = string.flatMap Piece.text ++ quote :: rest := by
  rw [Quoted.body, List.append_assoc, List.singleton_append]

theorem Quoted.length_body_pos (string : Quoted) : 0 < string.body.length := by
  rw [Quoted.body, List.length_append]
  exact Nat.lt_add_left _ (by decide)

/-- A written string is read as the text that it denotes. -/
theorem readString_body (string : Quoted) (rest : List UInt8) :
    readString (string.body ++ rest) = outcome string.string? rest := by
  rw [Quoted.body_append]
  exact readStringFrom_text [] string rest

/-! ## Passing over -/

section Skipping

variable {phase next : SkipPhase} {byte : UInt8}

theorem skipStringFrom_step (hopen : ¬ (phase = .plain ∧ byte = quote))
    (hskip : skipByte phase byte = some next) (text : List UInt8) :
    skipStringFrom phase (byte :: text) = skipStringFrom next text := by
  rw [skipStringFrom, if_neg hopen, hskip]

end Skipping

theorem skipStringFrom_ordinary (bytes text : List UInt8)
    (hordinary : ∀ byte ∈ bytes, Ordinary byte) :
    skipStringFrom .plain (bytes ++ text) = skipStringFrom .plain text := by
  induction bytes with
  | nil => rfl
  | cons byte rest ih =>
    obtain ⟨⟨hquote, hbackslash, hcontrol⟩, hrest⟩ := List.forall_mem_cons.mp hordinary
    have hskip : skipByte .plain byte = some .plain := by
      rw [skipByte, if_neg hbackslash, if_neg hcontrol]
    rw [List.cons_append, skipStringFrom_step (fun h => hquote h.2) hskip, ih hrest]

theorem skipStringFrom_piece (piece : Piece) (text : List UInt8) :
    skipStringFrom .plain (piece.text ++ text) = skipStringFrom .plain text := by
  have hbackslash : ¬ (SkipPhase.plain = .plain ∧ backslash = quote) := by decide
  have hopen : ∀ byte, ¬ (SkipPhase.escape = .plain ∧ byte = quote) := by simp
  cases piece with
  | plain letter hplain => exact skipStringFrom_ordinary _ text (ordinary_of_isPlain hplain)
  | short escape =>
    obtain ⟨byte, hmeant, -⟩ := shortEscape_letter escape
    have hskip : skipByte .escape escape.letter = some .plain := by
      rw [skipByte, if_neg (letter_ne_u escape), hmeant]
      rfl
    show skipStringFrom .plain (backslash :: escape.letter :: text) = _
    rw [skipStringFrom_step hbackslash rfl, skipStringFrom_step (hopen _) hskip]
  | unit a b c d =>
    have hunit : ∀ digits byte, ¬ (SkipPhase.unit digits = .plain ∧ byte = quote) := by simp
    have hdigits : skipByte (.unit [a.byte, b.byte, c.byte]) d.byte = some .plain := by
      show (hexNumber [a.byte, b.byte, c.byte, d.byte]).map _ = _
      rw [hexNumber_bytes]
      rfl
    show skipStringFrom .plain
      (backslash :: ascii 'u' :: a.byte :: b.byte :: c.byte :: d.byte :: text) = _
    rw [skipStringFrom_step hbackslash rfl, skipStringFrom_step (hopen _) rfl,
      skipStringFrom_step (hunit _ _) rfl, skipStringFrom_step (hunit _ _) rfl,
      skipStringFrom_step (hunit _ _) rfl]
    exact skipStringFrom_step (hunit _ _) hdigits text

/-- A written string is passed over whole, whatever it denotes. -/
theorem skipString_body (string : Quoted) (rest : List UInt8) :
    skipString (string.body ++ rest) = .ok rest := by
  rw [Quoted.body_append, skipString]
  induction string with
  | nil => rfl
  | cons piece string ih =>
    rw [List.flatMap_cons, List.append_assoc, skipStringFrom_piece, ih]

end Json
end Chip8
