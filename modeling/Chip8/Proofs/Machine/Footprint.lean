import Chip8.Proofs.Machine.Sound
import Chip8.Proofs.Machine.Start

/-!
# What an instruction leaves alone

Every part of a machine is written by few instructions, and these write what can be said in terms of
numbers.

* `Memory.Overwritten` — bytes have been written over a range, and nothing else is new.
* `Machine.MemoryWritten`, `Machine.StackWritten`, `Machine.indexWritten`, `Machine.randomWritten` —
  what becomes of memory, of the stack, of the index register and of the random bytes.
* `Machine.Writes` — the registers that an instruction may write.
* `Machine.Footprint` — what an instruction leaves of a machine, part by part.
* `Effect.footprint` — every instruction keeps to its footprint.
* `cycle_footprint` — so does every cycle that succeeds.
-/

namespace Chip8

/-- Bytes have been written over a range that lies in memory, and nothing else is new. -/
structure Memory.Overwritten (before after : Memory) (start : Nat) (bytes : List UInt8) : Prop where
  fits : start + bytes.length ≤ memorySize
  inside : ∀ offset < bytes.length, bytes[offset]? = some (after.byte (start + offset))
  outside : ∀ address, ¬ (start ≤ address ∧ address < start + bytes.length) →
    after.byte address = before.byte address

theorem Memory.overwritten_of_write {before after : Memory} {start : Nat} {bytes : List UInt8}
    (hwrite : before.write start bytes = .ok after) : before.Overwritten after start bytes := by
  obtain ⟨hfits, rfl⟩ := Memory.write_eq_ok_iff.mp hwrite
  exact {
    fits := hfits
    inside := fun _ hoffset => Memory.byte_put_inside hfits before hoffset
    outside := fun _ houtside => Memory.byte_put_outside hfits houtside }

namespace Registers

/-- A block of registers holds their values in order. -/
theorem getElem?_upTo (registers : Registers) {x place : Digit} (hplace : place ≤ x) :
    (registers.upTo x)[place.val]? = some (registers.get place) := by
  have hinside : place.val < x.val + 1 := Nat.lt_succ_of_le hplace
  rw [upTo, List.getElem?_take_of_lt hinside]
  simp [get]

theorem get_set_of_ne (registers : Registers) {x place : Digit} (value : UInt8) (hne : x ≠ place) :
    (registers.set x value).get place = registers.get place :=
  (get_set ..).trans (if_neg hne)

end Registers

/-- The digits of a byte are digits, and write the byte. -/
theorem decimalDigits_eq (value : UInt8) : ∃ hundreds tens ones : UInt8,
    decimalDigits value = [hundreds, tens, ones] ∧
      (hundreds.toNat ≤ 9 ∧ tens.toNat ≤ 9 ∧ ones.toNat ≤ 9) ∧
      100 * hundreds.toNat + 10 * tens.toNat + ones.toNat = value.toNat := by
  have hvalue := value.toNat_lt
  refine ⟨_, _, _, rfl, ?_⟩
  rw [UInt8.toNat_mod, UInt8.toNat_mod, UInt8.toNat_div, UInt8.toNat_div]
  simp only [UInt8.reduceToNat]
  omega

namespace Machine

/-! ## Footprints -/

/-- What becomes of memory: three digits or a block of registers are written from the index register
on. -/
def MemoryWritten (before after : Machine) : Instruction → Prop
  | .storeDecimal x => ∃ hundreds tens ones : UInt8,
      (hundreds.toNat ≤ 9 ∧ tens.toNat ≤ 9 ∧ ones.toNat ≤ 9) ∧
        100 * hundreds.toNat + 10 * tens.toNat + ones.toNat = (before.registers.get x).toNat ∧
        before.memory.Overwritten after.memory before.index.toNat [hundreds, tens, ones]
  | .storeBlock x => ∃ values : List UInt8, values.length = x.val + 1 ∧
      (∀ place ≤ x, values[place.val]? = some (before.registers.get place)) ∧
        before.memory.Overwritten after.memory before.index.toNat values
  | _ => after.memory = before.memory

/-- What becomes of the stack: a call writes the entry at the old depth, and a return moves the
pointer alone. -/
def StackWritten (before after : Machine) : Instruction → Prop
  | .call _ => after.stack.pointer = before.stack.pointer + 1 ∧
      ∀ place : Nat, after.stack.entries[place]? =
        if place = before.stack.pointer then some (before.pc + 2) else before.stack.entries[place]?
  | .ret => after.stack.pointer + 1 = before.stack.pointer ∧
      after.stack.entries = before.stack.entries
  | _ => after.stack = before.stack

/-- What becomes of the index register, as a number. -/
def indexWritten (before : Machine) : Instruction → Nat
  | .setIndex target => target.val
  | .addIndex x => (before.index.toNat + (before.registers.get x).toNat) % 0x10000
  | .pointGlyph x => before.fontStart.toNat + 5 * ((before.registers.get x).toNat % 16)
  | .storeBlock x | .loadBlock x =>
      if before.dialect.blockMovesIndex then before.index.toNat + x.val + 1
      else before.index.toNat
  | _ => before.index.toNat

/-- What becomes of the random bytes: one of them is drawn, or none. -/
def randomWritten (before : Machine) : Instruction → Random
  | .random _ _ => before.random.advance
  | _ => before.random

/-- The registers that an instruction may write, as far as dialect and keys decide. -/
inductive Writes (dialect : Dialect) (keypad : Keypad) : Instruction → Digit → Prop
  | setByte {x : Digit} {nn : UInt8} : Writes dialect keypad (.setByte x nn) x
  | addByte {x : Digit} {nn : UInt8} : Writes dialect keypad (.addByte x nn) x
  | combine {op : Combine} {x y : Digit} : Writes dialect keypad (.combine op x y) x
  /-- Sums, differences and shifts report through the flag. -/
  | report {op : Combine} {x y : Digit} :
      op ∈ [.add, .subtract, .shiftRight, .subtractFrom, .shiftLeft] →
      Writes dialect keypad (.combine op x y) Registers.flag
  /-- The bitwise combinations clear the flag if the dialect says so. -/
  | clear {op : Combine} {x y : Digit} : op ∈ [.or, .and, .xor] →
      dialect.logicClearsFlag = true → Writes dialect keypad (.combine op x y) Registers.flag
  | random {x : Digit} {nn : UInt8} : Writes dialect keypad (.random x nn) x
  | draw {x y rows : Digit} : Writes dialect keypad (.draw x y rows) Registers.flag
  | readDelay {x : Digit} : Writes dialect keypad (.readDelay x) x
  | waitKey {x key : Digit} : keypad.isPressed key = true → Writes dialect keypad (.waitKey x) x
  | loadBlock {x place : Digit} : place ≤ x → Writes dialect keypad (.loadBlock x) place

/-- What an instruction leaves of a machine, part by part. -/
structure Footprint (before after : Machine) (instruction : Instruction) : Prop where
  memory : before.MemoryWritten after instruction
  stack : before.StackWritten after instruction
  index_eq : after.index.toNat = before.indexWritten instruction
  screen_eq : instruction ≠ .clearScreen → (∀ x y rows, instruction ≠ .draw x y rows) →
    after.screen = before.screen
  delay_eq : (∀ x, instruction ≠ .setDelay x) → after.timers.delay = before.timers.delay
  sound_eq : (∀ x, instruction ≠ .setSound x) → after.timers.sound = before.timers.sound
  register_eq : ∀ place, ¬ Writes before.dialect before.keypad instruction place →
    after.registers.get place = before.registers.get place
  random_eq : after.random = before.randomWritten instruction
  keypad_eq : after.keypad = before.keypad
  speed_eq : after.speed = before.speed
  dialect_eq : after.dialect = before.dialect
  fontStart_eq : after.fontStart = before.fontStart
  programStart_eq : after.programStart = before.programStart

section Effect

variable {machine next : Machine} {instruction : Instruction}

theorem Effect.memory (heffect : machine.Effect instruction next) :
    machine.MemoryWritten next instruction := by
  cases heffect with
  | @storeDecimal x _ hwrite =>
    obtain ⟨hundreds, tens, ones, hdigits, hrange, hvalue⟩ :=
      decimalDigits_eq (machine.registers.get x)
    rw [hdigits] at hwrite
    exact ⟨hundreds, tens, ones, hrange, hvalue, Memory.overwritten_of_write hwrite⟩
  | @storeBlock x _ hwrite =>
    exact ⟨_, Registers.length_upTo _ x, fun _ hplace => Registers.getElem?_upTo _ hplace,
      Memory.overwritten_of_write hwrite⟩
  | _ => rfl

theorem Effect.stack (heffect : machine.Effect instruction next) :
    machine.StackWritten next instruction := by
  cases heffect with
  | call hpush => exact ⟨(CallStack.pointer_of_push hpush).2, CallStack.entry_of_push hpush⟩
  | ret hpop => exact ⟨(CallStack.pointer_of_pop hpop).symm, CallStack.entries_of_pop hpop⟩
  | _ => rfl

/-- The index register moves behind a block that lies in memory, if the dialect says so. -/
theorem toNat_indexAfterBlock {x : Digit} (hfits : machine.index.toNat + (x.val + 1) ≤ memorySize) :
    (machine.indexAfterBlock x).toNat =
      if machine.dialect.blockMovesIndex then machine.index.toNat + x.val + 1
      else machine.index.toNat := by
  have hinside : machine.index.toNat + (x.val + 1) ≤ 0x1000 := hfits
  have hlength : (UInt16.ofNat (x.val + 1)).toNat = x.val + 1 := by
    rw [UInt16.toNat_ofNat']
    omega
  unfold indexAfterBlock
  split
  · rw [UInt16.toNat_add, hlength]
    omega
  · rfl

theorem Effect.index_eq (heffect : machine.Effect instruction next) (hsound : machine.Sound) :
    next.index.toNat = machine.indexWritten instruction := by
  cases heffect with
  | @setIndex target =>
    show (UInt16.ofNat target.val).toNat = target.val
    rw [UInt16.toNat_ofNat']
    omega
  | @addIndex x =>
    show (machine.index + (machine.registers.get x).toUInt16).toNat = _
    rw [UInt16.toNat_add, UInt8.toNat_toUInt16]
    rfl
  | @pointGlyph x =>
    -- the font lies in memory, so the place of a glyph is exact
    have hfont : machine.fontStart.toNat + 80 ≤ machine.programStart.toNat := hsound.font_le
    have hprogram : machine.programStart.toNat ≤ 0x1000 := hsound.program_le
    show (UInt16.ofNat (machine.fontStart.toNat +
      5 * ((machine.registers.get x).toNat % 16))).toNat = _
    rw [UInt16.toNat_ofNat', indexWritten]
    omega
  | @storeBlock x _ hwrite =>
    obtain ⟨hfits, -⟩ := Memory.write_eq_ok_iff.mp hwrite
    rw [Registers.length_upTo] at hfits
    exact toNat_indexAfterBlock hfits
  | @loadBlock x _ hread => exact toNat_indexAfterBlock (Memory.read_eq_ok_iff.mp hread).1
  | _ => rfl

/-- A combination leaves a register alone that is neither its first one nor a flag that it
writes. -/
theorem get_combine_of_free {op : Combine} {x y place : Digit}
    (hfree : ¬ Writes machine.dialect machine.keypad (.combine op x y) place) :
    (machine.registers.combine machine.dialect op x y).get place =
      machine.registers.get place := by
  have hx : x ≠ place := fun hsame => hfree (hsame ▸ .combine)
  have hreport : op ∈ [Combine.add, .subtract, .shiftRight, .subtractFrom, .shiftLeft] →
      Registers.flag ≠ place := fun hop hsame => hfree (hsame ▸ .report hop)
  have hclear : op ∈ [Combine.or, .and, .xor] → machine.dialect.logicClearsFlag = true →
      Registers.flag ≠ place := fun hop hclears hsame => hfree (hsame ▸ .clear hop hclears)
  unfold Registers.combine
  cases op with
  | copy => exact Registers.get_set_of_ne _ _ hx
  | or | and | xor =>
    cases hclears : machine.dialect.logicClearsFlag with
    | false =>
      simp only [Combine.apply, hclears]
      exact Registers.get_set_of_ne _ _ hx
    | true =>
      simp only [Combine.apply, hclears, if_true]
      exact (Registers.get_set_of_ne _ _ (hclear (by simp) hclears)).trans
        (Registers.get_set_of_ne _ _ hx)
  | add | subtract | shiftRight | subtractFrom | shiftLeft =>
    exact (Registers.get_set_of_ne _ _ (hreport (by simp))).trans (Registers.get_set_of_ne _ _ hx)

theorem Effect.register_eq (heffect : machine.Effect instruction next) {place : Digit}
    (hfree : ¬ Writes machine.dialect machine.keypad instruction place) :
    next.registers.get place = machine.registers.get place := by
  cases heffect with
  | setByte => exact Registers.get_set_of_ne _ _ fun hsame => hfree (hsame ▸ .setByte)
  | addByte => exact Registers.get_set_of_ne _ _ fun hsame => hfree (hsame ▸ .addByte)
  | combine => exact get_combine_of_free hfree
  | random => exact Registers.get_set_of_ne _ _ fun hsame => hfree (hsame ▸ .random)
  | draw => exact Registers.get_set_of_ne _ _ fun hsame => hfree (hsame ▸ .draw)
  | readDelay => exact Registers.get_set_of_ne _ _ fun hsame => hfree (hsame ▸ .readDelay)
  | resume hkey =>
    have hpressed := (Keypad.firstPressed_eq_some_iff.mp hkey).1
    exact Registers.get_set_of_ne _ _ fun hsame => hfree (hsame ▸ .waitKey hpressed)
  | @loadBlock x bytes hread =>
    -- a register behind the last byte of the block keeps its value
    obtain ⟨-, rfl⟩ := Memory.read_eq_ok_iff.mp hread
    have hbehind : x.val < place.val := Nat.lt_of_not_le fun hplace => hfree (.loadBlock hplace)
    refine (Registers.get_load ..).trans ?_
    rw [List.getElem?_eq_none (by rw [Memory.length_slice]; omega)]
    rfl
  | _ => rfl

/-- Every instruction keeps to its footprint. -/
theorem Effect.footprint (heffect : machine.Effect instruction next) (hsound : machine.Sound) :
    machine.Footprint next instruction where
  memory := heffect.memory
  stack := heffect.stack
  index_eq := heffect.index_eq hsound
  screen_eq hclear hdraw := by
    cases heffect with
    | clearScreen => exact absurd rfl hclear
    | draw => exact absurd rfl (hdraw _ _ _)
    | _ => rfl
  delay_eq hdelay := by
    cases heffect with
    | setDelay => exact absurd rfl (hdelay _)
    | _ => rfl
  sound_eq hsound := by
    cases heffect with
    | setSound => exact absurd rfl (hsound _)
    | _ => rfl
  register_eq _ hfree := heffect.register_eq hfree
  random_eq := by cases heffect <;> rfl
  keypad_eq := by cases heffect <;> rfl
  speed_eq := by cases heffect <;> rfl
  dialect_eq := by cases heffect <;> rfl
  fontStart_eq := by cases heffect <;> rfl
  programStart_eq := by cases heffect <;> rfl

end Effect

/-- A cycle of a reachable machine that succeeds carries out the instruction of the word at the
program counter, and keeps to the footprint of that instruction. -/
theorem cycle_footprint {machine : Machine} (hreach : machine.Reachable) {updated : Bool}
    (hdone : machine.cycle.result = .ok updated) :
    ∃ instruction : Instruction, Instruction.decode machine.word = some instruction ∧
      instruction.encode = machine.word ∧
      machine.Footprint machine.cycle.machine instruction := by
  obtain ⟨-, hcycle⟩ | ⟨-, fault, records, -, hcycle⟩ |
      ⟨-, -, -, instruction, next, records, hread, hexecute, hcycle⟩ := cycle_cases machine
  · rw [hcycle] at hdone
    cases hdone
  · rw [hcycle] at hdone
    cases hdone
  · have hnumber := (Instruction.number_of_decode hread).1
    have hencode : instruction.encode = machine.word :=
      UInt16.toNat_inj.mp ((Instruction.toNat_encode instruction).trans hnumber.symm)
    have hfootprint := (execute_eq_ok_iff.mp hexecute).footprint hreach.sound.beginCycle
    rw [hcycle]
    -- counting the cycle touches nothing that a footprint speaks of
    exact ⟨instruction, hread, hencode, {
      memory := hfootprint.memory
      stack := hfootprint.stack
      index_eq := hfootprint.index_eq
      screen_eq := hfootprint.screen_eq
      delay_eq := hfootprint.delay_eq
      sound_eq := hfootprint.sound_eq
      register_eq := hfootprint.register_eq
      random_eq := hfootprint.random_eq
      keypad_eq := hfootprint.keypad_eq
      speed_eq := hfootprint.speed_eq
      dialect_eq := hfootprint.dialect_eq
      fontStart_eq := hfootprint.fontStart_eq
      programStart_eq := hfootprint.programStart_eq }⟩

/-- A block that ends with memory moves the index register out of memory, and leaves the byte before
it alone. -/
theorem cycle_footprint_last_block :
    let program : Program := ⟨[0x62, 0x07, 0xAF, 0xFD, 0xF2, 0x55]⟩
    let settings : Settings := { dialect := .cosmacVip }
    let start := loaded program settings (.ofSeed 0)
    let machine := start.after [.cycle, .cycle]
    (boot program settings (.ofSeed 0)).result = .ok start ∧
      machine.cycle.result = .ok false ∧
      Instruction.decode machine.word = some (.storeBlock (.ofNat 2)) ∧
      machine.cycle.machine.index.toNat = 0x1000 ∧
      machine.cycle.machine.memory.byte 0xFFF = 7 ∧
      machine.cycle.machine.memory.byte 0xFFC = machine.memory.byte 0xFFC ∧
      machine.cycle.machine.registers = machine.registers := by
  intro program settings start machine
  have hboot : (boot program settings (.ofSeed 0)).result = .ok start :=
    boot_eq_ok_iff.mpr ⟨by decide, by decide, by decide, rfl⟩
  have hreach : machine.Reachable :=
    ⟨program, settings, .ofSeed 0, start, [.cycle, .cycle], hboot, rfl⟩
  obtain ⟨hreply, hread, hindex, hvalue, hmoves⟩ :
      (Operation.cycle.apply machine).reply = .updated false ∧
        Instruction.decode machine.word = some (.storeBlock (.ofNat 2)) ∧
        machine.index = 0xFFD ∧ machine.registers.get (.ofNat 2) = 7 ∧
        machine.dialect.blockMovesIndex = true := by
    decide +kernel
  have hdone : machine.cycle.result = .ok false := reply_eq_updated_iff.mp hreply
  obtain ⟨instruction, hread', -, hfootprint⟩ := cycle_footprint hreach hdone
  obtain rfl := Option.some.inj (hread.symm.trans hread')
  obtain ⟨values, hlength, hvalues, hwritten⟩ := hfootprint.memory
  refine ⟨hboot, hdone, hread, ?_, ?_, ?_,
    Registers.ext_get fun place => hfootprint.register_eq place ?_⟩
  · rw [hfootprint.index_eq, indexWritten, if_pos hmoves, hindex]
    rfl
  · have hlast : values[2]? = some 7 := (hvalues (.ofNat 2) (Nat.le_refl _)).trans (by rw [hvalue])
    have hinside := hwritten.inside 2 (by rw [hlength]; decide)
    rw [hindex, hlast] at hinside
    exact (Option.some.inj hinside).symm
  · refine hwritten.outside 0xFFC fun hinside => absurd hinside.1 ?_
    rw [hindex]
    decide
  · rintro ⟨⟩

end Machine
end Chip8
