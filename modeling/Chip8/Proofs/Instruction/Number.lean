import Chip8.Instruction.Encoding

/-!
# The numbers of instruction words

Every instruction word is one number: a family digit followed by the operands.  Reading a word and
writing an instruction are compared through this number.

* `Instruction.number` — the number of an instruction's word, with the places of its operands.
* `toNat_encode` — filling the template writes exactly this number.
* `decode_of_number` — a word with the number of an instruction is read as that instruction.
* `number_of_decode`, `encode_of_decode` — an instruction that is read has the number of its word,
  and is written as this word.
* `decode_eq_none_iff` — the words that cannot be read are those that no instruction has.
-/

namespace Chip8

/-- The last digit of a combination's word. -/
def Combine.number : Combine → Nat
  | copy => 0x0
  | or => 0x1
  | and => 0x2
  | xor => 0x3
  | add => 0x4
  | subtract => 0x5
  | shiftRight => 0x6
  | subtractFrom => 0x7
  | shiftLeft => 0xE

theorem Combine.number_lt (op : Combine) : op.number < 0x10 := by
  cases op <;> decide

theorem Combine.ofDigit?_of_number {digit : Digit} {op : Combine}
    (hnumber : digit.val = op.number) : ofDigit? digit = some op := by
  cases op <;> simp [ofDigit?, hnumber, number]

theorem Combine.number_of_ofDigit? {digit : Digit} {op : Combine}
    (hread : ofDigit? digit = some op) : digit.val = op.number := by
  unfold ofDigit? at hread
  split at hread <;> cases hread <;> assumption

/-- The number of a skip's word. -/
def Condition.number : Condition → Nat
  | isByte x nn => 0x1000 * 0x3 + 0x100 * x.val + nn.toNat
  | isNotByte x nn => 0x1000 * 0x4 + 0x100 * x.val + nn.toNat
  | same x y => 0x1000 * 0x5 + 0x100 * x.val + 0x10 * y.val + 0x0
  | different x y => 0x1000 * 0x9 + 0x100 * x.val + 0x10 * y.val + 0x0
  | keyDown x => 0x1000 * 0xE + 0x100 * x.val + 0x9E
  | keyUp x => 0x1000 * 0xE + 0x100 * x.val + 0xA1

namespace Instruction

/-- The number of an instruction's word. -/
def number : Instruction → Nat
  | clearScreen => 0x00E0
  | ret => 0x00EE
  | machineCall target => 0x1000 * 0x0 + target.val
  | jump target => 0x1000 * 0x1 + target.val
  | call target => 0x1000 * 0x2 + target.val
  | skipIf condition => condition.number
  | setByte x nn => 0x1000 * 0x6 + 0x100 * x.val + nn.toNat
  | addByte x nn => 0x1000 * 0x7 + 0x100 * x.val + nn.toNat
  | combine op x y => 0x1000 * 0x8 + 0x100 * x.val + 0x10 * y.val + op.number
  | setIndex target => 0x1000 * 0xA + target.val
  | jumpOffset base => 0x1000 * 0xB + base.val
  | random x nn => 0x1000 * 0xC + 0x100 * x.val + nn.toNat
  | draw x y rows => 0x1000 * 0xD + 0x100 * x.val + 0x10 * y.val + rows.val
  | readDelay x => 0x1000 * 0xF + 0x100 * x.val + 0x07
  | waitKey x => 0x1000 * 0xF + 0x100 * x.val + 0x0A
  | setDelay x => 0x1000 * 0xF + 0x100 * x.val + 0x15
  | setSound x => 0x1000 * 0xF + 0x100 * x.val + 0x18
  | addIndex x => 0x1000 * 0xF + 0x100 * x.val + 0x1E
  | pointGlyph x => 0x1000 * 0xF + 0x100 * x.val + 0x29
  | storeDecimal x => 0x1000 * 0xF + 0x100 * x.val + 0x33
  | storeBlock x => 0x1000 * 0xF + 0x100 * x.val + 0x55
  | loadBlock x => 0x1000 * 0xF + 0x100 * x.val + 0x65

/-! ## Writing -/

theorem fill_template (operands : Operands) (a b c d : Char) :
    operands.fill 0 [a, b, c, d] =
      16 * (16 * (16 * operands.digit a 3 + operands.digit b 2) + operands.digit c 1)
        + operands.digit d 0 := by
  simp [Operands.fill]

theorem toNat_encode (instruction : Instruction) :
    instruction.encode.toNat = instruction.number := by
  rw [encode, UInt16.toNat_ofNat']
  cases instruction with
  | skipIf condition =>
    cases condition with
    | isByte x nn | isNotByte x nn =>
      have hnn := nn.toNat_lt
      simp [operands, Condition.operands, name, Condition.name, fill_template, Operands.digit,
        number, Condition.number, Nat.shiftRight_eq_div_pow]
      omega
    | same x y | different x y | keyDown x | keyUp x =>
      simp [operands, Condition.operands, name, Condition.name, fill_template, Operands.digit,
        number, Condition.number]
      omega
  | combine op x y =>
    cases op <;>
      simp [operands, name, Combine.name, fill_template, Operands.digit, number, Combine.number] <;>
      omega
  | setByte x nn | addByte x nn | random x nn =>
    have hnn := nn.toNat_lt
    simp [operands, name, fill_template, Operands.digit, number, Nat.shiftRight_eq_div_pow]
    omega
  | machineCall target | jump target | call target | setIndex target | jumpOffset target =>
    simp [operands, name, fill_template, Operands.digit, number, Nat.shiftRight_eq_div_pow]
    omega
  | draw x y rows =>
    simp [operands, name, fill_template, Operands.digit, number]
    omega
  | clearScreen | ret => rfl
  | _ =>
    simp [operands, name, fill_template, Operands.digit, number]
    omega

/-! ## Reading -/

section Parts

variable {word : UInt16} {family : Nat}

/-- The parts of a word that names an address. -/
theorem parts_nnn {nnn : Address} (hword : word.toNat = 0x1000 * family + nnn.val) :
    (Digit.ofWord word 3).val = family ∧ Address.ofWord word = nnn := by
  have hsize := word.toNat_lt
  refine ⟨?_, Fin.ext ?_⟩
  · rw [Digit.val_ofWord, Nat.shiftRight_eq_div_pow]
    omega
  · show word.toNat % 0x1000 = nnn.val
    omega

/-- The parts of a word that names a register and a byte. -/
theorem parts_xnn {x : Digit} {nn : Nat} (hnn : nn < 0x100)
    (hword : word.toNat = 0x1000 * family + 0x100 * x.val + nn) :
    (Digit.ofWord word 3).val = family ∧ Digit.ofWord word 2 = x ∧ word.toUInt8.toNat = nn := by
  have hsize := word.toNat_lt
  refine ⟨?_, Fin.ext ?_, ?_⟩
  · rw [Digit.val_ofWord, Nat.shiftRight_eq_div_pow]
    omega
  · rw [Digit.val_ofWord, Nat.shiftRight_eq_div_pow]
    omega
  · rw [UInt16.toNat_toUInt8]
    omega

/-- The parts of a word that names two registers and a digit. -/
theorem parts_xyn {x y : Digit} {n : Nat} (hn : n < 0x10)
    (hword : word.toNat = 0x1000 * family + 0x100 * x.val + 0x10 * y.val + n) :
    (Digit.ofWord word 3).val = family ∧ Digit.ofWord word 2 = x ∧ Digit.ofWord word 1 = y ∧
      (Digit.ofWord word 0).val = n := by
  have hsize := word.toNat_lt
  refine ⟨?_, Fin.ext ?_, Fin.ext ?_, ?_⟩ <;>
    rw [Digit.val_ofWord, Nat.shiftRight_eq_div_pow] <;>
    omega

end Parts

/-- An instruction whose word is not taken by a more special one. -/
def IsOwn : Instruction → Prop
  | machineCall target => target.val ≠ 0x0E0 ∧ target.val ≠ 0x0EE
  | _ => True

/-- Only the words of two machine calls are taken by other instructions. -/
theorem exists_of_not_isOwn {instruction : Instruction} (hown : ¬ instruction.IsOwn) :
    ∃ target, instruction = machineCall target ∧ (target.val = 0x0E0 ∨ target.val = 0x0EE) := by
  cases instruction with
  | machineCall target =>
    refine ⟨target, rfl, ?_⟩
    unfold IsOwn at hown
    omega
  | _ => exact absurd trivial hown

/-- Every word of an instruction is the own word of some instruction. -/
theorem exists_isOwn (instruction : Instruction) :
    ∃ reading : Instruction, reading.IsOwn ∧ reading.number = instruction.number := by
  by_cases hown : instruction.IsOwn
  · exact ⟨instruction, hown, rfl⟩
  · obtain ⟨target, rfl, hclear | hret⟩ := exists_of_not_isOwn hown
    · exact ⟨clearScreen, trivial, by rw [number, number, hclear]⟩
    · exact ⟨ret, trivial, by rw [number, number, hret]⟩

/-- A word with the number of an instruction is read as that instruction. -/
theorem decode_of_number {word : UInt16} {instruction : Instruction}
    (hown : instruction.IsOwn) (hnumber : word.toNat = instruction.number) :
    decode word = some instruction := by
  cases instruction with
  | clearScreen =>
    obtain rfl : word = 0x00E0 := UInt16.toNat_inj.mp hnumber
    rfl
  | ret =>
    obtain rfl : word = 0x00EE := UInt16.toNat_inj.mp hnumber
    rfl
  | machineCall target =>
    obtain ⟨hfamily, hnnn⟩ := parts_nnn hnumber
    have hclear : word ≠ 0x00E0 := by
      rintro rfl
      exact hown.1 (hnnn ▸ rfl)
    have hret : word ≠ 0x00EE := by
      rintro rfl
      exact hown.2 (hnnn ▸ rfl)
    simp only [decode, hfamily, hnnn, if_neg hclear, if_neg hret]
  | jump target | call target | setIndex target | jumpOffset target =>
    obtain ⟨hfamily, hnnn⟩ := parts_nnn hnumber
    simp only [decode, hfamily, hnnn]
  | setByte x nn | addByte x nn | random x nn =>
    obtain ⟨hfamily, hx, hnn⟩ := parts_xnn nn.toNat_lt hnumber
    simp only [decode, hfamily, hx, UInt8.toNat_inj.mp hnn]
  | skipIf condition =>
    cases condition with
    | isByte x nn | isNotByte x nn =>
      obtain ⟨hfamily, hx, hnn⟩ := parts_xnn nn.toNat_lt hnumber
      simp only [decode, hfamily, hx, UInt8.toNat_inj.mp hnn]
    | same x y | different x y =>
      obtain ⟨hfamily, hx, hy, hn⟩ := parts_xyn (by decide) hnumber
      simp only [decode, hfamily, hx, hy, hn, if_pos]
    | keyDown x | keyUp x =>
      obtain ⟨hfamily, hx, hnn⟩ := parts_xnn (by decide) hnumber
      simp only [decode, hfamily, hx, hnn, decodeKey]
  | combine op x y =>
    obtain ⟨hfamily, hx, hy, hn⟩ := parts_xyn op.number_lt hnumber
    simp only [decode, hfamily, hx, hy, Combine.ofDigit?_of_number hn, Option.map_some]
  | draw x y rows =>
    obtain ⟨hfamily, hx, hy, hn⟩ := parts_xyn rows.isLt hnumber
    simp only [decode, hfamily, hx, hy, Fin.ext hn]
  | readDelay x | waitKey x | setDelay x | setSound x | addIndex x | pointGlyph x
  | storeDecimal x | storeBlock x | loadBlock x =>
    obtain ⟨hfamily, hx, hnn⟩ := parts_xnn (by decide) hnumber
    simp only [decode, hfamily, hx, hnn, decodeService]

theorem number_of_decodeKey {x : Digit} {code : Nat} {instruction : Instruction}
    (hread : decodeKey x code = some instruction) :
    instruction.number = 0x1000 * 0xE + 0x100 * x.val + code ∧ instruction.IsOwn := by
  unfold decodeKey at hread
  split at hread <;> cases hread <;> exact ⟨rfl, trivial⟩

theorem number_of_decodeService {x : Digit} {code : Nat} {instruction : Instruction}
    (hread : decodeService x code = some instruction) :
    instruction.number = 0x1000 * 0xF + 0x100 * x.val + code ∧ instruction.IsOwn := by
  unfold decodeService at hread
  split at hread <;> cases hread <;> exact ⟨rfl, trivial⟩

/-- An instruction that is read has the number of its word. -/
theorem number_of_decode {word : UInt16} {instruction : Instruction}
    (hread : decode word = some instruction) :
    word.toNat = instruction.number ∧ instruction.IsOwn := by
  have hword := Digit.toNat_eq_digits word
  have hnn : word.toUInt8.toNat = 16 * (Digit.ofWord word 1).val + (Digit.ofWord word 0).val := by
    rw [UInt16.toNat_toUInt8]
    omega
  have hnnn : (Address.ofWord word).val =
      256 * (Digit.ofWord word 2).val + 16 * (Digit.ofWord word 1).val +
        (Digit.ofWord word 0).val := by
    show word.toNat % 0x1000 = _
    omega
  unfold decode at hread
  simp only at hread
  split at hread
  case h_1 hfamily =>
    -- two words of the family are instructions of their own
    split at hread
    · next hclear =>
      obtain rfl := Option.some.inj hread
      exact ⟨congrArg UInt16.toNat hclear, trivial⟩
    · next hclear =>
      split at hread
      · next hret =>
        obtain rfl := Option.some.inj hread
        exact ⟨congrArg UInt16.toNat hret, trivial⟩
      · next hret =>
        obtain rfl := Option.some.inj hread
        have hsame : word.toNat = (Address.ofWord word).val := by omega
        refine ⟨by rw [number]; omega, fun hown => hclear ?_, fun hown => hret ?_⟩ <;>
          exact UInt16.toNat_inj.mp (hsame.trans hown)
  case h_6 hfamily | h_10 hfamily =>
    split at hread
    · obtain rfl := Option.some.inj hread
      refine ⟨?_, trivial⟩
      rw [number, Condition.number]
      omega
    · cases hread
  case h_9 hfamily =>
    obtain ⟨op, hop, rfl⟩ := Option.map_eq_some_iff.mp hread
    have hn := Combine.number_of_ofDigit? hop
    refine ⟨?_, trivial⟩
    rw [number]
    omega
  case h_15 hfamily =>
    obtain ⟨hnumber, hown⟩ := number_of_decodeKey hread
    exact ⟨by omega, hown⟩
  case h_16 hfamily =>
    obtain ⟨hnumber, hown⟩ := number_of_decodeService hread
    exact ⟨by omega, hown⟩
  case h_17 => cases hread
  -- in the families that are left every word is an instruction
  all_goals
    obtain rfl := Option.some.inj hread
    refine ⟨?_, trivial⟩
    simp only [number, Condition.number]
    omega

/-- An instruction that is read is written as the same word. -/
theorem encode_of_decode {word : UInt16} {instruction : Instruction}
    (hread : decode word = some instruction) : instruction.encode = word :=
  UInt16.toNat_inj.mp ((toNat_encode instruction).trans (number_of_decode hread).1.symm)

theorem decode_call {word : UInt16} (hfamily : word.toNat / 0x1000 = 0x2) :
    decode word = some (.call (Address.ofWord word)) := by
  refine decode_of_number trivial ?_
  show word.toNat = 0x1000 * 0x2 + word.toNat % 0x1000
  omega

/-- The words that cannot be read are those that no instruction has. -/
theorem decode_eq_none_iff {word : UInt16} :
    decode word = none ↔ ∀ instruction : Instruction, instruction.encode ≠ word := by
  constructor
  · rintro hnone instruction rfl
    obtain ⟨reading, hown, hnumber⟩ := exists_isOwn instruction
    rw [decode_of_number hown ((toNat_encode instruction).trans hnumber.symm)] at hnone
    cases hnone
  · intro hfree
    cases hread : decode word with
    | none => rfl
    | some instruction => exact absurd (encode_of_decode hread) (hfree instruction)

end Instruction
end Chip8
