import Chip8.Proofs.Instruction.Template

/-!
# Numerals read back

A numeral of a message goes on to the first character that is the letter of no digit.  So it can be
read back in front of whatever such a character starts, and zeros in front do not matter.

* `Digit.isLetter`, `Digit.valueOf` — the letters of digits, and what they stand for.
* `Numeral.behind` — what stands behind some words.
* `Numeral.Ends` — a text that continues no numeral.
* `exists_digits` — padded or not, the letters of a number are those of digits that make it up.
* `readHex_hex`, `readDecimal_decimal` — a numeral is read back, and so is what stands behind it.
-/

namespace Chip8

/-- Whether a character is the letter of a digit. -/
def Digit.isLetter (letter : Char) : Bool :=
  letter.isDigit || ('A' ≤ letter && letter ≤ 'F')

/-- What the letter of a digit stands for. -/
def Digit.valueOf (letter : Char) : Nat :=
  if letter.isDigit then letter.toNat - '0'.toNat else letter.toNat - 'A'.toNat + 10

theorem Digit.isLetter_letter : ∀ digit : Digit, isLetter digit.letter = true := by decide

theorem Digit.valueOf_letter : ∀ digit : Digit, valueOf digit.letter = digit.val := by decide

namespace Numeral

/-- What stands behind some words with which a text starts. -/
def behind (words : String) (text : List Char) : List Char := text.drop words.toList.length

@[simp] theorem behind_append (words : String) (rest : List Char) :
    behind words (words.toList ++ rest) = rest := List.drop_left

/-- The hexadecimal number that a text starts with, behind `0x`, and what is left of the text. -/
def readHex (text : List Char) : Nat × List Char :=
  let letters := behind "0x" text
  ((letters.takeWhile Digit.isLetter).foldl (fun n letter => 16 * n + Digit.valueOf letter) 0,
    letters.dropWhile Digit.isLetter)

/-- The decimal number that a text starts with, and what is left of the text. -/
def readDecimal (text : List Char) : Nat × List Char :=
  (Nat.ofDigitChars 10 (text.takeWhile Char.isDigit) 0, text.dropWhile Char.isDigit)

/-! ## Where a numeral ends -/

/-- A text that continues no numeral. -/
def Ends (rest : List Char) : Prop :=
  ∀ letter ∈ rest.head?, Digit.isLetter letter = false

@[simp] theorem ends_nil : Ends [] := nofun

@[simp] theorem ends_cons (letter : Char) (rest : List Char) :
    Ends (letter :: rest) ↔ Digit.isLetter letter = false := by
  simp [Ends]

/-- Letters are split off exactly from a text that continues no numeral. -/
theorem Ends.split {among : Char → Bool} {letters rest : List Char} (hrest : Ends rest)
    (hletters : ∀ letter ∈ letters, among letter = true)
    (hamong : ∀ letter, among letter = true → Digit.isLetter letter = true) :
    (letters ++ rest).takeWhile among = letters ∧ (letters ++ rest).dropWhile among = rest := by
  rw [List.takeWhile_append_of_pos hletters, List.dropWhile_append_of_pos hletters]
  cases rest with
  | nil => exact ⟨List.append_nil letters, rfl⟩
  | cons letter rest =>
    have hstop : ¬ among letter = true := by
      intro hletter
      exact absurd (hamong letter hletter) (by simpa using hrest)
    exact ⟨by rw [List.takeWhile_cons_of_neg hstop, List.append_nil],
      List.dropWhile_cons_of_neg hstop⟩

/-! ## Hexadecimal numerals -/

/-- The number that some digits make up. -/
def ofDigits (digits : List Digit) : Nat :=
  digits.foldl (fun n digit => 16 * n + digit.val) 0

theorem ofDigits_concat (digits : List Digit) (digit : Digit) :
    ofDigits (digits ++ [digit]) = 16 * ofDigits digits + digit.val := by
  simp [ofDigits]

theorem ofDigits_zeros (count : Nat) : ofDigits (List.replicate count (.ofNat 0)) = 0 := by
  induction count with
  | zero => rfl
  | succ count ih => rw [List.replicate_succ', ofDigits_concat, ih, Digit.val_ofNat]

/-- Padded or not, the letters of a number are those of digits that make it up. -/
theorem exists_digits (width n : Nat) :
    ∃ digits : List Digit, hexDigits width n = digits.map Digit.letter ∧ ofDigits digits = n := by
  -- on the number, which loses its last digit; all the padding stands before its first digit
  induction n using Nat.strongRecOn generalizing width with
  | ind n ih =>
    by_cases hdigit : n < 16
    · have hzero : (Nat.digitChar 0).toUpper = '0' := by decide
      refine ⟨List.replicate (width - 1) (.ofNat 0) ++ [.ofNat n], ?_, ?_⟩
      · simp [hexDigits, Nat.toDigits_of_lt_base hdigit, Digit.letter, Nat.mod_eq_of_lt hdigit,
          hzero]
      · rw [ofDigits_concat, ofDigits_zeros, Digit.val_ofNat]
        omega
    · have hlarge := Nat.le_of_not_lt hdigit
      obtain ⟨digits, htext, hnumber⟩ := ih (n / 16) (by omega) (width - 1)
      refine ⟨digits ++ [.ofNat n], ?_, ?_⟩
      · rw [hexDigits_of_le hlarge, htext, List.map_append]
        rfl
      · rw [ofDigits_concat, hnumber, Digit.val_ofNat]
        omega

/-- A number is read back from its hexadecimal text, whatever the width. -/
theorem readHex_hex (width n : Nat) {rest : List Char} (hrest : Ends rest) :
    readHex ((hex width n).toList ++ rest) = (n, rest) := by
  obtain ⟨digits, htext, hnumber⟩ := exists_digits width n
  have hletters : ∀ letter ∈ digits.map Digit.letter, Digit.isLetter letter = true := by
    intro letter hmember
    obtain ⟨digit, -, rfl⟩ := List.mem_map.mp hmember
    exact Digit.isLetter_letter digit
  obtain ⟨hfront, hback⟩ := hrest.split hletters fun _ hletter => hletter
  have hbehind : behind "0x" ((hex width n).toList ++ rest) = hexDigits width n ++ rest := by
    rw [toList_hex]
    rfl
  rw [readHex, hbehind, htext, hfront, hback, List.foldl_map]
  simp only [Digit.valueOf_letter]
  rw [← hnumber, ofDigits]

/-! ## Decimal numerals -/

/-- A number is read back from its decimal text. -/
theorem readDecimal_decimal (n : Nat) {rest : List Char} (hrest : Ends rest) :
    readDecimal ((decimal n).toList ++ rest) = (n, rest) := by
  have hdigits : ∀ letter ∈ Nat.toDigits 10 n, letter.isDigit = true :=
    fun _ hmember => Nat.isDigit_of_mem_toDigits (by decide) (by decide) hmember
  have hletter : ∀ letter : Char, letter.isDigit = true → Digit.isLetter letter = true := by
    intro letter hdigit
    rw [Digit.isLetter, hdigit, Bool.true_or]
  obtain ⟨hfront, hback⟩ := hrest.split hdigits hletter
  rw [toList_decimal, readDecimal, hfront, hback, Nat.ofDigitChars_ten_toDigits]

end Numeral
end Chip8
