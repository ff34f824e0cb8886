/-!
# Numerals as they appear in messages

Messages name addresses and instruction words in upper-case hexadecimal behind `0x`, padded with
zeros to a least width, and sizes in plain decimal.

* `decimal` — the decimal text of a number, without leading zeros.
* `hexDigits` — the upper-case hexadecimal digits, padded to a width; a longer number is not cut.
* `hex` — `hexDigits` behind `0x`.
-/

namespace Chip8
namespace Numeral

def decimal (n : Nat) : String :=
  String.ofList (Nat.toDigits 10 n)

/-- The upper-case hexadecimal digits of a number, with as many zeros in front as a width needs. -/
def hexDigits (width n : Nat) : List Char :=
  let digits := (Nat.toDigits 16 n).map Char.toUpper
  List.replicate (width - digits.length) '0' ++ digits

/-- The hexadecimal text of a number behind `0x`. -/
def hex (width n : Nat) : String :=
  "0x" ++ String.ofList (hexDigits width n)

@[simp] theorem toList_decimal (n : Nat) : (decimal n).toList = Nat.toDigits 10 n := by
  simp [decimal]

@[simp] theorem toList_hex (width n : Nat) :
    (hex width n).toList = '0' :: 'x' :: hexDigits width n := by
  simp [hex]

end Numeral
end Chip8
