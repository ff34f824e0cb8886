import Chip8.Proofs.Json.Scalar

/-!
# Numerals with superfluous zeros

A numeral without superfluous zeros is the only one for its number.  One with superfluous zeros in
front is no number, with or without a sign, a fraction or an exponent behind the digits.

* `Figures.ofNat_value` — digits without superfluous zeros are the decimal digits of their number.
* `NumberForm.padded` — a number with more zeros in front.
* `readNumber_padded` — it is refused as soon as its digits have been read.
* `RefusesPadded` — so it is by a reader that expects a natural number, and by all that are made of
  one.
-/

namespace Chip8
namespace Json

/-! ## Digits without superfluous zeros -/

/-- Digits that do not start with a zero stand for a number above zero. -/
theorem Figures.value_pos {figures : Figures} (hfirst : figures.first.val ≠ 0) :
    0 < figures.value := by
  obtain ⟨first, rest⟩ := figures
  induction rest using List.reverseRecOn with
  | nil =>
    show 0 < 10 * 0 + first.val
    exact Nat.add_pos_right _ (Nat.pos_of_ne_zero hfirst)
  | append_singleton rest digit ih =>
    show 0 < ((⟨first, rest⟩ : Figures).concat digit).value
    rw [Figures.value_concat]
    have hfront := ih hfirst
    omega

/-- Digits without superfluous zeros are the decimal digits of their number. -/
theorem Figures.ofNat_value {figures : Figures}
    (htrimmed : figures.first.val = 0 → figures.rest = []) :
    Figures.ofNat figures.value = figures := by
  obtain ⟨first, rest⟩ := figures
  induction rest using List.reverseRecOn with
  | nil =>
    have hvalue : (⟨first, []⟩ : Figures).value = first.val := by
      show 10 * 0 + first.val = first.val
      rw [Nat.mul_zero, Nat.zero_add]
    rw [hvalue, Figures.ofNat, dif_pos first.isLt]
  | append_singleton rest digit ih =>
    -- the digits in front of the last one start with no zero, so they make a number
    have hfirst : first.val ≠ 0 := fun hzero => absurd (htrimmed hzero) (by simp)
    have hfront := ih fun hzero => absurd hzero hfirst
    have hpos : 0 < (⟨first, rest⟩ : Figures).value := Figures.value_pos hfirst
    have hvalue : (⟨first, rest ++ [digit]⟩ : Figures).value =
        10 * (⟨first, rest⟩ : Figures).value + digit.val :=
      Figures.value_concat ⟨first, rest⟩ digit
    have hdigit := digit.isLt
    have htenth : (10 * (⟨first, rest⟩ : Figures).value + digit.val) / 10 =
        (⟨first, rest⟩ : Figures).value := by omega
    have hlast : (10 * (⟨first, rest⟩ : Figures).value + digit.val) % 10 = digit.val := by omega
    rw [hvalue, Figures.ofNat, dif_neg (by omega), htenth, hfront]
    simp only [hlast, Figures.concat]

/-- A number that means a natural number is written as that number is. -/
theorem NumberForm.text_eq_ofNat {form : NumberForm} {n : Nat} (hnatural : form.natural? = some n) :
    form.text = (NumberForm.ofNat n).text := by
  obtain ⟨negative, whole, htrimmed, fraction, exponent⟩ := form
  rw [NumberForm.natural?] at hnatural
  split at hnatural
  · cases hnatural
  · next hbare =>
    simp only [Bool.or_eq_true, not_or, Bool.not_eq_true, Option.isSome_eq_false_iff,
      Option.isNone_iff_eq_none] at hbare
    obtain ⟨⟨rfl, rfl⟩, rfl⟩ := hbare
    obtain rfl := Option.some.inj hnatural
    show (NumberForm.bare whole htrimmed).text = (NumberForm.ofNat whole.value).text
    rw [NumberForm.ofNat, NumberForm.text_bare, NumberForm.text_bare, Figures.ofNat_value htrimmed]

/-! ## Superfluous zeros -/

/-- A number with more zeros in front of its digits. -/
def NumberForm.padded (zeros : Nat) (form : NumberForm) : List UInt8 :=
  (if form.negative then [Sign.minus.byte] else []) ++
    (List.replicate zeros 0x30 ++ form.unsignedText)

/-- With a superfluous zero in front, the digits of a number are digits that start with a zero and
do not end there. -/
theorem exists_figures_padded (zeros : Nat) (form : NumberForm) :
    ∃ figures : Figures, figures.first.val = 0 ∧ figures.rest ≠ [] ∧
      List.replicate (zeros + 1) 0x30 ++ form.unsignedText =
        figures.text ++ (form.fractionText ++ form.exponentText) := by
  refine ⟨⟨⟨0, by decide⟩, List.replicate zeros ⟨0, by decide⟩ ++ form.whole.digits⟩, rfl, ?_, ?_⟩
  · simp [Figures.digits]
  · simp [NumberForm.unsignedText, Figures.text, Figures.digits, List.replicate_succ]
    exact ⟨rfl, .inr rfl⟩

section Reading

variable (ending : Refusal) {rest : List UInt8}

theorem readWhole_of_zero {figures : Figures} (hzero : figures.first.val = 0)
    (hmore : figures.rest ≠ []) (hends : EndsDigits rest) :
    readWhole ending (figures.text ++ rest) = .error .invalid := by
  have hseveral : figures.text.head? = some 0x30 ∧ figures.text.length ≠ 1 := by
    rw [Figures.text_cons]
    refine ⟨congrArg some ((figure_eq_zero_iff _).mpr hzero), ?_⟩
    rw [List.length_cons, List.length_map]
    exact fun hsingle => hmore (List.length_eq_zero_iff.mp (Nat.succ.inj hsingle))
  rw [readWhole, readDigits_text figures hends]
  exact if_pos hseveral

theorem readUnsigned_padded (zeros : Nat) (form : NumberForm) (hends : EndsNumber rest) :
    readUnsigned ending (List.replicate (zeros + 1) 0x30 ++ form.unsignedText ++ rest) =
      .error .invalid := by
  obtain ⟨figures, hzero, hmore, htext⟩ := exists_figures_padded zeros form
  have hbehind := endsDigits_fractionText form hends
  rw [htext, List.append_assoc, List.append_assoc, readUnsigned,
    readWhole_of_zero ending hzero hmore hbehind]
  rfl

/-- A number with superfluous zeros is refused as soon as its digits have been read. -/
theorem readNumber_padded (zeros : Nat) (form : NumberForm) (hends : EndsNumber rest) :
    readNumber ending (form.padded (zeros + 1) ++ rest) = .error .invalid := by
  have hread := readUnsigned_padded ending zeros form hends
  rw [NumberForm.padded]
  cases form.negative with
  | true =>
    show (readUnsigned ending (List.replicate (zeros + 1) 0x30 ++ form.unsignedText ++ rest) >>=
      _) = _
    rw [hread]
    rfl
  | false =>
    rw [if_neg Bool.false_ne_true, List.nil_append, ← hread]
    exact readNumber_of_isDigit (isDigit_figure ⟨0, by decide⟩) _

theorem NumberForm.padded_starts (zeros : Nat) (form : NumberForm) :
    ∃ byte text, form.padded (zeros + 1) = byte :: text ∧
      (byte = ascii '-' ∨ isDigit byte = true) := by
  rw [NumberForm.padded]
  cases form.negative with
  | true => exact ⟨_, _, rfl, .inl rfl⟩
  | false => exact ⟨_, _, rfl, .inr (isDigit_figure ⟨0, by decide⟩)⟩

end Reading

variable {α β : Type}

/-- A reader refuses numbers with superfluous zeros, whatever blanks stand in front of them. -/
def RefusesPadded (read : Reader α) : Prop :=
  ∀ (zeros : Nat) (form : NumberForm) (blanks rest : List UInt8), Blank blanks → EndsNumber rest →
    read (blanks ++ (form.padded (zeros + 1) ++ rest)) = .error .invalid

theorem refusesPadded_readNatural (limit : Nat) : RefusesPadded (readNatural limit) := by
  intro zeros form blanks rest hblanks hends
  have hread := readNumber_padded .truncated zeros form hends
  obtain ⟨byte, text, htext, hbyte⟩ := form.padded_starts zeros
  rw [htext, List.cons_append] at hread ⊢
  rw [readNatural, skipBlanks_append hblanks, skipBlanks_cons (isBlank_of_startsNumber hbyte)]
  refine (if_pos hbyte).trans ?_
  rw [hread]
  rfl

theorem RefusesPadded.map {read : Reader α} (hread : RefusesPadded read) (f : α → β) :
    RefusesPadded (Reader.map f read) := by
  intro zeros form blanks rest hblanks hends
  rw [Reader.map, hread zeros form blanks rest hblanks hends]
  rfl

theorem RefusesPadded.optional {read : Reader α} (hread : RefusesPadded read) :
    RefusesPadded (readOptional read) := by
  intro zeros form blanks rest hblanks hends
  have hpresent := hread.map some zeros form [] rest blank_nil hends
  obtain ⟨byte, text, htext, hbyte⟩ := form.padded_starts zeros
  rw [htext, List.nil_append, List.cons_append] at hpresent
  rw [htext, List.cons_append, readOptional, skipBlanks_append hblanks,
    skipBlanks_cons (isBlank_of_startsNumber hbyte)]
  exact (if_neg (ne_of_startsNumber hbyte (by decide))).trans hpresent

end Json
end Chip8
