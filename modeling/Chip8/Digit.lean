/-!
# Hexadecimal digits

A digit is a number below sixteen.  Digits name the registers, the keys and the glyphs of the font,
and four of them make up an instruction word.

* `Digit.ofNat` — the lowest digit of a number.
* `Digit.low` — the low digit of a byte, which is all that keys and glyphs look at.
* `Digit.ofWord` — the digit of a word at a place, place 0 being the least significant.
* `toNat_eq_digits` — a word is the number written by its four digits.
-/

namespace Chip8

/-- A hexadecimal digit. -/
abbrev Digit := Fin 16

namespace Digit

/-- The lowest digit of a number. -/
def ofNat (n : Nat) : Digit :=
  ⟨n % 16, Nat.mod_lt n (by decide)⟩

def low (value : UInt8) : Digit :=
  ofNat value.toNat

/-- The digit of a word at a place, counted from the least significant. -/
def ofWord (word : UInt16) (place : Nat) : Digit :=
  ofNat (word.toNat >>> (4 * place))

@[simp] theorem val_ofNat (n : Nat) : (ofNat n).val = n % 16 := rfl

@[simp] theorem val_low (value : UInt8) : (low value).val = value.toNat % 16 := rfl

@[simp] theorem val_ofWord (word : UInt16) (place : Nat) :
    (ofWord word place).val = word.toNat >>> (4 * place) % 16 := rfl

/-- A digit is found again from its number. -/
@[simp] theorem ofNat_val (x : Digit) : ofNat x.val = x :=
  Fin.ext (Nat.mod_eq_of_lt x.isLt)

/-- A digit is found again from the byte that holds it. -/
@[simp] theorem low_ofNat_val (x : Digit) : low (UInt8.ofNat x.val) = x := by
  have hsmall := x.isLt
  refine Fin.ext ?_
  rw [val_low, UInt8.toNat_ofNat']
  omega

/-- A word is the number written by its four digits. -/
theorem toNat_eq_digits (word : UInt16) :
    word.toNat = 4096 * (ofWord word 3).val + 256 * (ofWord word 2).val
      + 16 * (ofWord word 1).val + (ofWord word 0).val := by
  have hsize := word.toNat_lt
  simp only [val_ofWord, Nat.shiftRight_eq_div_pow]
  omega

end Digit
end Chip8
