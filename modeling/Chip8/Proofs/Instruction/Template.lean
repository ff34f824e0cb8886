import Chip8.Numeral
import Chip8.Proofs.Instruction.Number
import Mathlib.Data.List.Forall2

/-!
# Words and templates

A word fits a template if its four hexadecimal digits, as they are printed, are those of the
template, where an operand letter stands for any digit.

* `Digit.letter`, `hexDigits_word` — the digits of a word as they are printed.
* `Instruction.Fits` — a word fits the template of an instruction, letter by letter.
* `Instruction.withOperands` — the instruction of the same template that has a word's operands.
* `fits_iff_number` — a word fits a template exactly if that instruction has its number.
* `exists_decode_iff` — the words that can be read are those that fit a template.
* `decode_encode` — an instruction is read back from its word, but for two machine calls.
-/

namespace Chip8

/-- A digit as it is printed. -/
def Digit.letter (digit : Digit) : Char :=
  (Nat.digitChar digit.val).toUpper

/-- The letters of the sixteen digits. -/
theorem Digit.eq_letter_iff : ∀ digit : Digit,
    ('0' = digit.letter ↔ digit.val = 0x0) ∧ ('1' = digit.letter ↔ digit.val = 0x1) ∧
    ('2' = digit.letter ↔ digit.val = 0x2) ∧ ('3' = digit.letter ↔ digit.val = 0x3) ∧
    ('4' = digit.letter ↔ digit.val = 0x4) ∧ ('5' = digit.letter ↔ digit.val = 0x5) ∧
    ('6' = digit.letter ↔ digit.val = 0x6) ∧ ('7' = digit.letter ↔ digit.val = 0x7) ∧
    ('8' = digit.letter ↔ digit.val = 0x8) ∧ ('9' = digit.letter ↔ digit.val = 0x9) ∧
    ('A' = digit.letter ↔ digit.val = 0xA) ∧ ('B' = digit.letter ↔ digit.val = 0xB) ∧
    ('C' = digit.letter ↔ digit.val = 0xC) ∧ ('D' = digit.letter ↔ digit.val = 0xD) ∧
    ('E' = digit.letter ↔ digit.val = 0xE) ∧ ('F' = digit.letter ↔ digit.val = 0xF) := by
  decide

namespace Numeral

/-- A number of several digits ends in its last one, behind the digits of what is left without it. -/
theorem hexDigits_of_le {n : Nat} (hlarge : 16 ≤ n) (width : Nat) :
    hexDigits width n = hexDigits (width - 1) (n / 16) ++ [(Digit.ofNat n).letter] := by
  rw [hexDigits, Nat.toDigits_of_base_le (by decide) hlarge]
  simp [hexDigits, Digit.letter, Nat.sub_sub, Nat.add_comm]

/-- The last digit of a number stands behind the digits of what is left without it. -/
theorem hexDigits_succ {width : Nat} (hwidth : 0 < width) (n : Nat) :
    hexDigits (width + 1) n = hexDigits width (n / 16) ++ [(Digit.ofNat n).letter] := by
  by_cases hdigit : n < 16
  · obtain ⟨width, rfl⟩ := Nat.exists_eq_add_one.mpr hwidth
    have hnone : n / 16 = 0 := Nat.div_eq_of_lt hdigit
    simp [hexDigits, hnone, Nat.toDigits_of_lt_base hdigit, Digit.letter, Nat.mod_eq_of_lt hdigit,
      List.replicate_succ']
  · exact hexDigits_of_le (Nat.le_of_not_lt hdigit) (width + 1)

theorem hexDigits_one {n : Nat} (hdigit : n < 16) : hexDigits 1 n = [(Digit.ofNat n).letter] := by
  simp [hexDigits, Nat.toDigits_of_lt_base hdigit, Digit.letter, Nat.mod_eq_of_lt hdigit]

/-- A word is printed with its four digits. -/
theorem hexDigits_word (word : UInt16) :
    hexDigits 4 word.toNat = [(Digit.ofWord word 3).letter, (Digit.ofWord word 2).letter,
      (Digit.ofWord word 1).letter, (Digit.ofWord word 0).letter] := by
  have hsize := word.toNat_lt
  rw [hexDigits_succ (by decide), hexDigits_succ (by decide), hexDigits_succ (by decide),
    hexDigits_one (by omega)]
  simp [Digit.ofWord, Nat.shiftRight_eq_div_pow, Nat.div_div_eq_div_mul]

end Numeral

/-- A letter of a template stands for a digit: an operand letter for any, every other for its
own. -/
def Stands (letter digit : Char) : Prop :=
  letter = 'X' ∨ letter = 'Y' ∨ letter = 'N' ∨ letter = digit

/-- The condition of the same template that has a word's operands. -/
def Condition.withOperands (word : UInt16) : Condition → Condition
  | isByte _ _ => isByte (.ofWord word 2) word.toUInt8
  | isNotByte _ _ => isNotByte (.ofWord word 2) word.toUInt8
  | same _ _ => same (.ofWord word 2) (.ofWord word 1)
  | different _ _ => different (.ofWord word 2) (.ofWord word 1)
  | keyDown _ => keyDown (.ofWord word 2)
  | keyUp _ => keyUp (.ofWord word 2)

namespace Instruction

/-- A word fits the template of an instruction, letter by letter. -/
def Fits (instruction : Instruction) (word : UInt16) : Prop :=
  List.Forall₂ Stands instruction.name.toList (Numeral.hexDigits 4 word.toNat)

/-- The instruction of the same template that has a word's operands. -/
def withOperands (word : UInt16) : Instruction → Instruction
  | clearScreen => clearScreen
  | ret => ret
  | machineCall _ => machineCall (.ofWord word)
  | jump _ => jump (.ofWord word)
  | call _ => call (.ofWord word)
  | skipIf condition => skipIf (condition.withOperands word)
  | setByte _ _ => setByte (.ofWord word 2) word.toUInt8
  | addByte _ _ => addByte (.ofWord word 2) word.toUInt8
  | combine op _ _ => combine op (.ofWord word 2) (.ofWord word 1)
  | setIndex _ => setIndex (.ofWord word)
  | jumpOffset _ => jumpOffset (.ofWord word)
  | random _ _ => random (.ofWord word 2) word.toUInt8
  | draw _ _ _ => draw (.ofWord word 2) (.ofWord word 1) (.ofWord word 0)
  | readDelay _ => readDelay (.ofWord word 2)
  | waitKey _ => waitKey (.ofWord word 2)
  | setDelay _ => setDelay (.ofWord word 2)
  | setSound _ => setSound (.ofWord word 2)
  | addIndex _ => addIndex (.ofWord word 2)
  | pointGlyph _ => pointGlyph (.ofWord word 2)
  | storeDecimal _ => storeDecimal (.ofWord word 2)
  | storeBlock _ => storeBlock (.ofWord word 2)
  | loadBlock _ => loadBlock (.ofWord word 2)

theorem name_withOperands (instruction : Instruction) (word : UInt16) :
    (instruction.withOperands word).name = instruction.name := by
  cases instruction with
  | skipIf condition => cases condition <;> rfl
  | _ => rfl

section Fits

variable {instruction : Instruction} {word : UInt16}

/-- The number of an instruction fits its template. -/
theorem fits_of_number (hnumber : word.toNat = instruction.number) : instruction.Fits word := by
  have hsize := word.toNat_lt
  cases instruction with
  | skipIf condition =>
    cases condition with
    | isByte x nn | isNotByte x nn =>
      have hnn := nn.toNat_lt
      simp [number, Condition.number] at hnumber
      simp [Fits, name, Condition.name, Numeral.hexDigits_word, Stands, Digit.eq_letter_iff,
        Nat.shiftRight_eq_div_pow]
      omega
    | _ =>
      simp [number, Condition.number] at hnumber
      simp [Fits, name, Condition.name, Numeral.hexDigits_word, Stands, Digit.eq_letter_iff,
        Nat.shiftRight_eq_div_pow]
      omega
  | combine op x y =>
    cases op <;>
      simp [number, Combine.number] at hnumber <;>
      simp [Fits, name, Combine.name, Numeral.hexDigits_word, Stands, Digit.eq_letter_iff,
        Nat.shiftRight_eq_div_pow] <;>
      omega
  | setByte x nn | addByte x nn | random x nn =>
    have hnn := nn.toNat_lt
    simp [number] at hnumber
    simp [Fits, name, Numeral.hexDigits_word, Stands, Digit.eq_letter_iff,
      Nat.shiftRight_eq_div_pow]
    omega
  | _ =>
    simp [number] at hnumber
    simp [Fits, name, Numeral.hexDigits_word, Stands, Digit.eq_letter_iff,
      Nat.shiftRight_eq_div_pow]
    omega

/-- A word that fits a template is the template with the word's operands filled in. -/
theorem number_of_fits (hfits : instruction.Fits word) :
    word.toNat = (instruction.withOperands word).number := by
  have hsize := word.toNat_lt
  have hnnn : (Address.ofWord word).val = word.toNat % 0x1000 := rfl
  cases instruction with
  | skipIf condition =>
    cases condition <;>
      simp [Fits, name, Condition.name, Numeral.hexDigits_word, Stands, Digit.eq_letter_iff,
        Nat.shiftRight_eq_div_pow] at hfits <;>
      simp [withOperands, Condition.withOperands, number, Condition.number,
        Nat.shiftRight_eq_div_pow] <;>
      omega
  | combine op x y =>
    cases op <;>
      simp [Fits, name, Combine.name, Numeral.hexDigits_word, Stands, Digit.eq_letter_iff,
        Nat.shiftRight_eq_div_pow] at hfits <;>
      simp [withOperands, number, Combine.number, Nat.shiftRight_eq_div_pow] <;>
      omega
  | _ =>
    simp [Fits, name, Numeral.hexDigits_word, Stands, Digit.eq_letter_iff,
      Nat.shiftRight_eq_div_pow] at hfits
    simp [withOperands, number, Nat.shiftRight_eq_div_pow]
    omega

theorem fits_iff_number :
    instruction.Fits word ↔ word.toNat = (instruction.withOperands word).number := by
  refine ⟨number_of_fits, fun hnumber => ?_⟩
  have hfits := fits_of_number hnumber
  rwa [Fits, name_withOperands] at hfits

end Fits

/-- The words that can be read are those that fit a template. -/
theorem exists_decode_iff {word : UInt16} :
    (∃ instruction, decode word = some instruction) ↔
      ∃ instruction : Instruction, instruction.Fits word := by
  constructor
  · rintro ⟨instruction, hread⟩
    exact ⟨instruction, fits_of_number (number_of_decode hread).1⟩
  · rintro ⟨instruction, hfits⟩
    obtain ⟨reading, hown, hnumber⟩ := exists_isOwn (instruction.withOperands word)
    exact ⟨reading, decode_of_number hown ((fits_iff_number.mp hfits).trans hnumber.symm)⟩

/-- An instruction is read back from its word, but for the machine calls of two addresses. -/
theorem decode_encode (instruction : Instruction) :
    decode instruction.encode = some instruction ∨
      ∃ target, instruction = .machineCall target ∧
        (instruction.encode = 0x00E0 ∧ decode 0x00E0 = some .clearScreen ∨
          instruction.encode = 0x00EE ∧ decode 0x00EE = some .ret) := by
  by_cases hown : instruction.IsOwn
  · exact .inl (decode_of_number hown (toNat_encode instruction))
  · obtain ⟨target, rfl, htaken⟩ := exists_of_not_isOwn hown
    have hnumber := toNat_encode (machineCall target)
    refine .inr ⟨target, rfl, ?_⟩
    rcases htaken with hclear | hret
    · rw [number, hclear] at hnumber
      exact .inl ⟨UInt16.toNat_inj.mp hnumber, rfl⟩
    · rw [number, hret] at hnumber
      exact .inr ⟨UInt16.toNat_inj.mp hnumber, rfl⟩

end Instruction
end Chip8
