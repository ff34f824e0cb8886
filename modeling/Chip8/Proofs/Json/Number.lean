import Chip8.Json.Number
import Chip8.Proofs.Json.Syntax

/-!
# Reading written numbers

A number is as long as it can be, so what follows it must not continue it.

* `EndsNumber` — a text that continues no number.
* `readDigits_text`, `readWhole_text` — written digits are read whole, as the number they denote.
* `readNumber_text` — a written number of any form and length is read whole; it has a value if it is
  a bare natural number.
* `NumberForm.ofNat` — a natural number in decimal digits.
-/

namespace Chip8
namespace Json

/-! ## What continues a number -/

/-- Whether a byte may stand in a number behind its first digit. -/
def goesOn (byte : UInt8) : Bool :=
  isDigit byte || byte == 0x2E || byte == 0x65 || byte == 0x45

/-- A text that continues no number. -/
def EndsNumber (text : List UInt8) : Prop := ∀ byte ∈ text.head?, goesOn byte = false

/-- A text that continues no digits. -/
def EndsDigits (text : List UInt8) : Prop := ∀ byte ∈ text.head?, isDigit byte = false

theorem endsNumber_cons {byte : UInt8} (hends : goesOn byte = false) (text : List UInt8) :
    EndsNumber (byte :: text) := by
  intro other hother
  obtain rfl := Option.mem_some.mp hother
  exact hends

theorem endsNumber_nil : EndsNumber [] := fun _ hnone => absurd hnone (by simp)

theorem endsDigits_cons {byte : UInt8} (hends : isDigit byte = false) (text : List UInt8) :
    EndsDigits (byte :: text) := by
  intro other hother
  obtain rfl := Option.mem_some.mp hother
  exact hends

theorem EndsNumber.endsDigits {text : List UInt8} (hends : EndsNumber text) : EndsDigits text := by
  intro byte hbyte
  have hgoes := hends byte hbyte
  simp only [goesOn, Bool.or_eq_false_iff] at hgoes
  exact hgoes.1.1.1

/-! ## Digits -/

theorem isDigit_figure (digit : Fin 10) : isDigit (figure digit) = true := by
  revert digit
  decide

theorem toNat_figure (digit : Fin 10) : (figure digit).toNat - 0x30 = digit.val := by
  revert digit
  decide

theorem figure_eq_zero_iff (digit : Fin 10) : figure digit = 0x30 ↔ digit.val = 0 := by
  revert digit
  decide

theorem Figures.text_cons (figures : Figures) :
    figures.text = figure figures.first :: figures.rest.map figure := rfl

theorem forall_mem_figures (figures : Figures) : ∀ byte ∈ figures.text, isDigit byte = true := by
  intro byte hbyte
  obtain ⟨digit, -, rfl⟩ := List.mem_map.mp hbyte
  exact isDigit_figure digit

theorem digitsFrom_map (value : Nat) (digits : List (Fin 10)) :
    digitsFrom value (digits.map figure) =
      digits.foldl (fun value digit => 10 * value + digit.val) value := by
  rw [digitsFrom, List.foldl_map]
  simp only [toNat_figure]

theorem digitsValue_text (figures : Figures) : digitsValue figures.text = figures.value :=
  digitsFrom_map 0 figures.digits

variable {ending : Refusal} {rest : List UInt8}

theorem dropWhile_eq_self_of_endsDigits (hends : EndsDigits rest) :
    rest.dropWhile isDigit = rest := by
  cases rest with
  | nil => rfl
  | cons byte rest => rw [List.dropWhile_cons_of_neg (by simp [hends byte rfl])]

theorem readDigits_text (figures : Figures) (hends : EndsDigits rest) :
    readDigits ending (figures.text ++ rest) = .ok (figures.text, rest) := by
  have htake : rest.takeWhile isDigit = [] := by
    have happend := List.takeWhile_append_dropWhile (p := isDigit) (l := rest)
    rw [dropWhile_eq_self_of_endsDigits hends] at happend
    exact List.append_left_eq_self.mp happend
  rw [readDigits, List.takeWhile_append_of_pos (forall_mem_figures figures),
    List.dropWhile_append_of_pos (forall_mem_figures figures), htake,
    dropWhile_eq_self_of_endsDigits hends, List.append_nil]
  rfl

theorem readWhole_text (figures : Figures)
    (htrimmed : figures.first.val = 0 → figures.rest = []) (hends : EndsDigits rest) :
    readWhole ending (figures.text ++ rest) = .ok (figures.value, rest) := by
  -- a number of several digits that starts with a zero is refused, but this one is trimmed
  have hsingle : ¬ (figures.text.head? = some 0x30 ∧ figures.text.length ≠ 1) := by
    rintro ⟨hzero, hlength⟩
    rw [Figures.text_cons, List.head?_cons, Option.some_inj, figure_eq_zero_iff] at hzero
    rw [Figures.text_cons, htrimmed hzero] at hlength
    exact hlength rfl
  rw [readWhole, readDigits_text figures hends]
  show (if _ then _ else _) = _
  rw [if_neg hsingle, digitsValue_text]
  rfl

/-! ## Numbers -/

theorem skipSign_of_isDigit {byte : UInt8} (hdigit : isDigit byte = true) (text : List UInt8) :
    skipSign (byte :: text) = byte :: text := by
  unfold skipSign
  split
  · next heq =>
    obtain ⟨rfl, -⟩ := List.cons.inj heq
    exact absurd hdigit (by decide)
  · next heq =>
    obtain ⟨rfl, -⟩ := List.cons.inj heq
    exact absurd hdigit (by decide)
  · rfl

theorem skipSign_text (sign : Option Sign) (figures : Figures) :
    skipSign (sign.toList.map Sign.byte ++ (figures.text ++ rest)) = figures.text ++ rest := by
  cases sign with
  | none => exact skipSign_of_isDigit (isDigit_figure figures.first) _
  | some sign => cases sign <;> rfl

theorem readExponent_text (form : NumberForm) (hends : EndsNumber rest) :
    readExponent ending (form.exponentText ++ rest) = .ok (form.exponent.isSome, rest) := by
  rw [NumberForm.exponentText]
  cases form.exponent with
  | none =>
    cases rest with
    | nil => rfl
    | cons byte rest =>
      have hgoes := hends byte rfl
      simp only [goesOn, Bool.or_eq_false_iff, beq_eq_false_iff_ne] at hgoes
      exact if_neg fun hletter => hletter.elim hgoes.1.2 hgoes.2
  | some exponent =>
    have hletter : (if exponent.capital then ascii 'E' else ascii 'e') = 0x65 ∨
        (if exponent.capital then ascii 'E' else ascii 'e') = 0x45 := by
      cases exponent.capital <;> decide
    simp only [Exponent.text, List.cons_append, List.append_assoc, readExponent, if_pos hletter,
      skipSign_text, readDigits_text exponent.figures hends.endsDigits]
    rfl

/-- What stands behind the whole part of a number does not continue its digits. -/
theorem endsDigits_exponentText (form : NumberForm) (hends : EndsNumber rest) :
    EndsDigits (form.exponentText ++ rest) := by
  rw [NumberForm.exponentText]
  cases form.exponent with
  | none => exact hends.endsDigits
  | some exponent => exact endsDigits_cons (by cases exponent.capital <;> decide) _

theorem readFraction_of_ne {byte : UInt8} (hpoint : byte ≠ 0x2E) (text : List UInt8) :
    readFraction ending (byte :: text) = .ok (false, byte :: text) := by
  unfold readFraction
  split
  · next heq => exact absurd (List.cons.inj heq).1 hpoint
  · rfl

theorem readFraction_text (form : NumberForm) (hends : EndsNumber rest) :
    readFraction ending (form.fractionText ++ (form.exponentText ++ rest)) =
      .ok (form.fraction.isSome, form.exponentText ++ rest) := by
  have hrest := endsDigits_exponentText form hends
  rw [NumberForm.fractionText]
  cases form.fraction with
  | some figures =>
    rw [List.cons_append, readFraction, readDigits_text figures hrest]
    rfl
  | none =>
    rw [List.nil_append, NumberForm.exponentText]
    cases form.exponent with
    | some exponent => exact readFraction_of_ne (by cases exponent.capital <;> decide) _
    | none =>
      cases rest with
      | nil => rfl
      | cons byte rest =>
        have hgoes := hends byte rfl
        simp only [goesOn, Bool.or_eq_false_iff, beq_eq_false_iff_ne] at hgoes
        exact readFraction_of_ne hgoes.1.1.2 rest

theorem endsDigits_fractionText (form : NumberForm) (hends : EndsNumber rest) :
    EndsDigits (form.fractionText ++ (form.exponentText ++ rest)) := by
  rw [NumberForm.fractionText]
  cases form.fraction with
  | none => exact endsDigits_exponentText form hends
  | some figures => exact endsDigits_cons (by decide) _

theorem readUnsigned_text (ending : Refusal) (form : NumberForm) (hends : EndsNumber rest) :
    readUnsigned ending (form.unsignedText ++ rest) =
      .ok (if form.fraction.isSome || form.exponent.isSome then none else some form.whole.value,
        rest) := by
  rw [NumberForm.unsignedText, List.append_assoc, List.append_assoc, readUnsigned,
    readWhole_text form.whole form.trimmed (endsDigits_fractionText form hends)]
  show (readFraction ending _ >>= _) = _
  rw [readFraction_text form hends]
  show (readExponent ending _ >>= _) = _
  rw [readExponent_text form hends]
  rfl

theorem readNumber_of_isDigit {byte : UInt8} (hdigit : isDigit byte = true) (text : List UInt8) :
    readNumber ending (byte :: text) = readUnsigned ending (byte :: text) := by
  unfold readNumber
  split
  · next heq =>
    obtain ⟨rfl, -⟩ := List.cons.inj heq
    exact absurd hdigit (by decide)
  · rfl

/-- A written number of any form is read whole. -/
theorem readNumber_text (ending : Refusal) (form : NumberForm) (hends : EndsNumber rest) :
    readNumber ending (form.text ++ rest) = .ok (form.natural?, rest) := by
  rw [NumberForm.text, NumberForm.natural?]
  have hread := readUnsigned_text ending form hends
  cases form.negative with
  | true =>
    show (readUnsigned ending (form.unsignedText ++ rest) >>= _) = _
    rw [hread]
    rfl
  | false =>
    rw [if_neg Bool.false_ne_true, Bool.false_or, ← hread]
    exact readNumber_of_isDigit (isDigit_figure form.whole.first) _

/-- A number starts with a minus sign or a digit. -/
theorem NumberForm.text_starts (form : NumberForm) :
    ∃ byte text, form.text = byte :: text ∧ (byte = ascii '-' ∨ isDigit byte = true) := by
  rw [NumberForm.text]
  cases form.negative with
  | true => exact ⟨_, _, rfl, .inl rfl⟩
  | false => exact ⟨_, _, rfl, .inr (isDigit_figure form.whole.first)⟩

theorem ne_of_startsNumber {byte other : UInt8} (hbyte : byte = ascii '-' ∨ isDigit byte = true)
    (hother : ¬ (other = ascii '-' ∨ isDigit other = true)) : byte ≠ other := by
  rintro rfl
  exact hother hbyte

/-! ## Decimal numerals -/

/-- Some digits with another one behind them. -/
def Figures.concat (figures : Figures) (digit : Fin 10) : Figures :=
  ⟨figures.first, figures.rest ++ [digit]⟩

/-- The decimal digits of a number. -/
def Figures.ofNat (n : Nat) : Figures :=
  if hdigit : n < 10 then ⟨⟨n, hdigit⟩, []⟩
  else (Figures.ofNat (n / 10)).concat ⟨n % 10, Nat.mod_lt n (by decide)⟩
termination_by n

theorem ascii_digitChar (digit : Fin 10) : ascii digit.val.digitChar = figure digit := by
  revert digit
  decide

theorem Figures.text_concat (figures : Figures) (digit : Fin 10) :
    (figures.concat digit).text = figures.text ++ [figure digit] := by
  simp [Figures.text, Figures.digits, Figures.concat]

theorem Figures.value_concat (figures : Figures) (digit : Fin 10) :
    (figures.concat digit).value = 10 * figures.value + digit.val := by
  simp [Figures.value, Figures.digits, Figures.concat]

theorem Figures.text_ofNat (n : Nat) : (Figures.ofNat n).text = (Nat.toDigits 10 n).map ascii := by
  fun_induction Figures.ofNat n with
  | case1 n hdigit =>
    rw [Nat.toDigits_of_lt_base hdigit, List.map_singleton, ascii_digitChar ⟨n, hdigit⟩]
    rfl
  | case2 n hdigit ih =>
    rw [Nat.toDigits_of_base_le (by decide) (Nat.le_of_not_lt hdigit), List.map_append, ← ih,
      Figures.text_concat, List.map_singleton, ascii_digitChar ⟨n % 10, _⟩]

theorem Figures.value_ofNat (n : Nat) : (Figures.ofNat n).value = n := by
  fun_induction Figures.ofNat n with
  | case1 n hdigit => simp [Figures.value, Figures.digits]
  | case2 n hdigit ih =>
    rw [Figures.value_concat, ih]
    exact Nat.div_add_mod n 10

theorem Figures.trimmed_ofNat (n : Nat) (hzero : (Figures.ofNat n).first.val = 0) :
    (Figures.ofNat n).rest = [] := by
  fun_induction Figures.ofNat n with
  | case1 n hdigit => rfl
  | case2 n hdigit ih =>
    -- digits that are a single zero stand for nothing, but there is a tenth of the number
    have hrest := ih hzero
    have hvalue := Figures.value_ofNat (n / 10)
    rw [Figures.value, Figures.digits, hrest] at hvalue
    simp only [List.foldl_cons, List.foldl_nil] at hvalue
    have hfirst : (Figures.ofNat (n / 10)).first.val = 0 := hzero
    omega

/-- The number of some digits alone. -/
def NumberForm.bare (whole : Figures) (htrimmed : whole.first.val = 0 → whole.rest = []) :
    NumberForm :=
  ⟨false, whole, htrimmed, none, none⟩

theorem NumberForm.text_bare (whole : Figures) (htrimmed : whole.first.val = 0 → whole.rest = []) :
    (NumberForm.bare whole htrimmed).text = whole.text := by
  show whole.text ++ ([] ++ []) = whole.text
  simp

/-- A natural number in decimal digits. -/
def NumberForm.ofNat (n : Nat) : NumberForm := .bare (Figures.ofNat n) (Figures.trimmed_ofNat n)

theorem NumberForm.text_ofNat (n : Nat) :
    (NumberForm.ofNat n).text = (Nat.toDigits 10 n).map ascii := by
  rw [NumberForm.ofNat, NumberForm.text_bare, Figures.text_ofNat]

theorem NumberForm.natural?_ofNat (n : Nat) : (NumberForm.ofNat n).natural? = some n :=
  congrArg some (Figures.value_ofNat n)

end Json
end Chip8
