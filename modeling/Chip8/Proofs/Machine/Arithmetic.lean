import Chip8.Proofs.InPlace.Moves
import Chip8.Proofs.Machine.Boot
import Chip8.Proofs.Machine.Footprint

/-!
# Arithmetic on registers

What the combinations of two registers come to is said in numbers, without bytes that wrap.  The
flag is written last, so it stands where the result would be if both meet, and both are made of what
the registers held before.

* `Combine.value`, `Combine.report` — the number that a combination comes to, and what it tells
  through the flag, if it writes the flag.
* `toNat_apply` — the bytes that a combination makes are these numbers.
* `Registers.Computed` — a number has been written to a register, and a report to the flag after it.
* `Machine.Makes` — an instruction makes registers of others, on a machine, on a board and in a
  cycle alike.
* `arithmetic_under_aliasing` — every combination and every sum with a byte, for any two registers.
-/

namespace Chip8

namespace Combine

/-- The number that a combination of two bytes comes to; the dialect says which byte is shifted. -/
def value (dialect : Dialect) (op : Combine) (first second : Nat) : Nat :=
  let shifted := if dialect.shiftReadsSecond then second else first
  match op with
  | copy => second
  | or => first ||| second
  | and => first &&& second
  | xor => first ^^^ second
  | add => (first + second) % 256
  | subtract => (((first : Int) - (second : Int)) % 256).toNat
  | shiftRight => shifted / 2
  | subtractFrom => (((second : Int) - (first : Int)) % 256).toNat
  | shiftLeft => 2 * shifted % 256

/-- The number that a combination of two bytes writes to the flag, if it writes the flag. -/
def report (dialect : Dialect) (op : Combine) (first second : Nat) : Option Nat :=
  let shifted := if dialect.shiftReadsSecond then second else first
  match op with
  | copy => none
  | or | and | xor => if dialect.logicClearsFlag then some 0 else none
  | add => some (if first + second > 255 then 1 else 0)
  | subtract => some (if first ≥ second then 1 else 0)
  | shiftRight => some (shifted % 2)
  | subtractFrom => some (if second ≥ first then 1 else 0)
  | shiftLeft => some (shifted / 128)

end Combine

/-! ## Bytes and numbers -/

theorem toNat_flagOf (condition : Bool) : (flagOf condition).toNat = if condition then 1 else 0 := by
  cases condition <;> rfl

theorem toNat_sub_eq_emod (first second : UInt8) :
    (first - second).toNat = (((first.toNat : Int) - (second.toNat : Int)) % 256).toNat := by
  have hfirst := first.toNat_lt
  have hsecond := second.toNat_lt
  rw [UInt8.toNat_sub]
  omega

theorem toNat_shiftRight_one (byte : UInt8) : (byte >>> 1).toNat = byte.toNat / 2 := by
  simp [UInt8.toNat_shiftRight, Nat.shiftRight_eq_div_pow]

theorem toNat_shiftLeft_one (byte : UInt8) : (byte <<< 1).toNat = 2 * byte.toNat % 256 := by
  simp [UInt8.toNat_shiftLeft, Nat.shiftLeft_eq, Nat.mul_comm]

theorem toNat_shiftRight_seven (byte : UInt8) : (byte >>> 7).toNat = byte.toNat / 128 := by
  simp [UInt8.toNat_shiftRight, Nat.shiftRight_eq_div_pow]

theorem toNat_and_one (byte : UInt8) : (byte &&& 1).toNat = byte.toNat % 2 := by
  simp [UInt8.toNat_and]

/-- The bytes that a combination makes are the numbers that it comes to. -/
theorem Combine.toNat_apply (dialect : Dialect) (op : Combine) (first second : UInt8) :
    (op.apply dialect first second).1.toNat = op.value dialect first.toNat second.toNat ∧
      (op.apply dialect first second).2.map UInt8.toNat =
        op.report dialect first.toNat second.toNat := by
  cases op with
  | copy => exact ⟨rfl, rfl⟩
  | or | and | xor =>
    refine ⟨by simp only [apply, value, UInt8.toNat_or, UInt8.toNat_and, UInt8.toNat_xor], ?_⟩
    simp only [apply, report]
    split <;> rfl
  | add =>
    refine ⟨UInt8.toNat_add .., ?_⟩
    simp [apply, report, toNat_flagOf]
  | subtract | subtractFrom =>
    refine ⟨toNat_sub_eq_emod .., ?_⟩
    simp [apply, report, toNat_flagOf, UInt8.le_iff_toNat_le]
  | shiftRight =>
    simp only [apply, value, report]
    split <;> exact ⟨toNat_shiftRight_one _, congrArg some (toNat_and_one _)⟩
  | shiftLeft =>
    simp only [apply, value, report]
    split <;> exact ⟨toNat_shiftLeft_one _, congrArg some (toNat_shiftRight_seven _)⟩

/-! ## Registers -/

namespace Registers

/-- A number has been written to a register, and after it a report to the flag if there is one. -/
structure Computed (before after : Registers) (x : Digit) (value : Nat) (report : Option Nat) :
    Prop where
  /-- The report stands, also in a register that is the flag itself. -/
  flag_eq : ∀ reported, report = some reported → (after.get flag).toNat = reported
  value_eq : x ≠ flag ∨ report = none → (after.get x).toNat = value
  other_eq : ∀ place, place ≠ x → (place ≠ flag ∨ report = none) →
    after.get place = before.get place

theorem computed_set (registers : Registers) (x : Digit) (value : UInt8) :
    registers.Computed (registers.set x value) x value.toNat none where
  flag_eq := nofun
  value_eq _ := congrArg UInt8.toNat (get_set_self ..)
  other_eq _ hother _ := get_set_of_ne _ _ (Ne.symm hother)

theorem computed_set_flag (registers : Registers) (x : Digit) (value flagValue : UInt8) :
    registers.Computed ((registers.set x value).set flag flagValue) x value.toNat
      (some flagValue.toNat) where
  flag_eq reported hreported := by
    rw [get_set_self]
    exact Option.some.inj hreported
  value_eq hfree := by
    have hx : flag ≠ x := Ne.symm (hfree.resolve_right nofun)
    rw [get_set_of_ne _ _ hx, get_set_self]
  other_eq place hother hfree := by
    have hplace : flag ≠ place := Ne.symm (hfree.resolve_right nofun)
    rw [get_set_of_ne _ _ hplace, get_set_of_ne _ _ (Ne.symm hother)]

/-- A combination writes its number and its report, both made of what the registers held before. -/
theorem computed_combine (registers : Registers) (dialect : Dialect) (op : Combine) (x y : Digit) :
    let first := (registers.get x).toNat
    let second := (registers.get y).toNat
    registers.Computed (registers.combine dialect op x y) x (op.value dialect first second)
      (op.report dialect first second) := by
  intro first second
  obtain ⟨hvalue, hreport⟩ := op.toNat_apply dialect (registers.get x) (registers.get y)
  rw [← hvalue, ← hreport, combine]
  rcases op.apply dialect (registers.get x) (registers.get y) with ⟨value, _ | flagValue⟩
  · exact computed_set registers x value
  · exact computed_set_flag registers x value flagValue

end Registers

/-! ## Instructions -/

namespace Machine

/-- An instruction goes on and makes registers of others, on a machine, on a board on which the
program counter has moved on already, and in a cycle. -/
structure Makes (dialect : Dialect) (before : Registers) (instruction : Instruction)
    (after : Registers) : Prop where
  execute : ∀ machine : Machine, machine.dialect = dialect → machine.registers = before →
    machine.execute instruction = .ok { machine.goOn with registers := after }
  carryOut : ∀ board : Board, board.dialect = dialect → board.registers = before →
    (Work.carryOut instruction).on board = (.done (), { board with registers := after })
  cycle : ∀ machine : Machine, machine.dialect = dialect → machine.registers = before →
    machine.due = some instruction →
    machine.cycle.result = .ok false ∧ machine.cycle.machine.registers = after

/-- What an instruction makes on every machine, it makes in a cycle. -/
theorem Makes.of_execute {dialect : Dialect} {before after : Registers} {instruction : Instruction}
    (hquiet : instruction.updatesScreen = false)
    (hexecute : ∀ machine : Machine, machine.dialect = dialect → machine.registers = before →
      machine.execute instruction = .ok { machine.goOn with registers := after })
    (hcarryOut : ∀ board : Board, board.dialect = dialect → board.registers = before →
      (Work.carryOut instruction).on board = (.done (), { board with registers := after })) :
    Makes dialect before instruction after where
  execute := hexecute
  carryOut := hcarryOut
  cycle := by
    intro machine hdialect hregisters hdue
    obtain ⟨hlive, hfetch, hread⟩ := due_eq_some_iff.mp hdue
    -- counting the cycle touches neither the dialect nor the registers
    have hbegun := hexecute machine.beginCycle hdialect hregisters
    rw [cycle_of_fetches hlive hfetch, perform_eq_ok hread hbegun, hquiet]
    exact ⟨rfl, rfl⟩

theorem makes_combine (dialect : Dialect) (registers : Registers) (op : Combine) (x y : Digit) :
    Makes dialect registers (.combine op x y) (registers.combine dialect op x y) := by
  refine .of_execute rfl ?_ ?_
  · rintro machine rfl rfl
    rfl
  · rintro board rfl rfl
    rw [Work.carryOut, Work.bind_done (Work.look_apply _), Work.bind_done (Work.register_apply x _),
      Work.bind_done (Work.register_apply y _), Work.setCombined_apply]

theorem makes_addByte (dialect : Dialect) (registers : Registers) (x : Digit) (nn : UInt8) :
    Makes dialect registers (.addByte x nn) (registers.set x (registers.get x + nn)) := by
  refine .of_execute rfl ?_ ?_
  · rintro machine rfl rfl
    rfl
  · rintro board rfl rfl
    rw [Work.carryOut, Work.bind_done (Work.register_apply x _), Work.setRegister_apply]

/-- For all registers, in every dialect, and for any two registers, the same or not and the flag or
not, a combination comes to its number and its report, and every other register keeps its value; and
so does the sum of a register and a byte, which reports nothing. -/
theorem arithmetic_under_aliasing :
    (∀ (dialect : Dialect) (registers : Registers) (op : Combine) (x y : Digit),
      let first := (registers.get x).toNat
      let second := (registers.get y).toNat
      ∃ after, Makes dialect registers (.combine op x y) after ∧
        registers.Computed after x (op.value dialect first second)
          (op.report dialect first second)) ∧
      ∀ (dialect : Dialect) (registers : Registers) (x : Digit) (nn : UInt8),
        ∃ after, Makes dialect registers (.addByte x nn) after ∧
          registers.Computed after x (((registers.get x).toNat + nn.toNat) % 256) none := by
  constructor
  · intro dialect registers op x y first second
    exact ⟨_, makes_combine dialect registers op x y, registers.computed_combine dialect op x y⟩
  · intro dialect registers x nn
    have hvalue : (registers.get x + nn).toNat = ((registers.get x).toNat + nn.toNat) % 256 :=
      UInt8.toNat_add ..
    exact ⟨_, makes_addByte dialect registers x nn, hvalue ▸ registers.computed_set x _⟩

/-- A bitwise combination into the flag is cleared in a dialect that clears the flag, and a sum with
a byte into the flag stays; the other register keeps its value. -/
theorem arithmetic_under_aliasing_flag :
    let program : Program := ⟨[0x6F, 0x03, 0x61, 0x05, 0x8F, 0x11, 0x7F, 0xFF]⟩
    let settings : Settings := { dialect := .cosmacVip }
    let start := loaded program settings (.ofSeed 0)
    let machine := start.after [.cycle, .cycle]
    let next := machine.cycle.machine
    (boot program settings (.ofSeed 0)).result = .ok start ∧
      (machine.due = some (.combine .or Registers.flag (.ofNat 1)) ∧
        next.due = some (.addByte Registers.flag 0xFF)) ∧
      (machine.registers.get Registers.flag = 3 ∧ machine.registers.get (.ofNat 1) = 5) ∧
      ((next.registers.get Registers.flag).toNat = 0 ∧ next.registers.get (.ofNat 1) = 5) ∧
      (next.cycle.machine.registers.get Registers.flag).toNat = 255 := by
  intro program settings start machine next
  have hboot : (boot program settings (.ofSeed 0)).result = .ok start :=
    boot_eq_ok_iff.mpr ⟨by decide, by decide, by decide, rfl⟩
  obtain ⟨hor, hsum, hdialect, hfirst, hsecond⟩ :
      machine.due = some (.combine .or Registers.flag (.ofNat 1)) ∧
        next.due = some (.addByte Registers.flag 0xFF) ∧
        machine.dialect = .cosmacVip ∧
        machine.registers.get Registers.flag = 3 ∧ machine.registers.get (.ofNat 1) = 5 := by
    decide +kernel
  obtain ⟨after, hmakes, hcomputed⟩ := arithmetic_under_aliasing.1 .cosmacVip machine.registers .or
    Registers.flag (.ofNat 1)
  obtain ⟨-, hafter⟩ := hmakes.cycle machine hdialect rfl hor
  have hcleared : (next.registers.get Registers.flag).toNat = 0 := by
    rw [show next.registers = after from hafter]
    exact hcomputed.flag_eq 0 rfl
  have hkept : next.registers.get (.ofNat 1) = 5 := by
    rw [show next.registers = after from hafter]
    exact (hcomputed.other_eq (.ofNat 1) (by decide) (.inl (by decide))).trans hsecond
  obtain ⟨last, hmakes, hcomputed⟩ := arithmetic_under_aliasing.2 next.dialect next.registers
    Registers.flag 0xFF
  obtain ⟨-, hlast⟩ := hmakes.cycle next rfl rfl hsum
  have hvalue := hcomputed.value_eq (.inr rfl)
  rw [hcleared, ← hlast] at hvalue
  exact ⟨hboot, ⟨hor, hsum⟩, ⟨hfirst, hsecond⟩, ⟨hcleared, hkept⟩, hvalue⟩

end Machine
end Chip8
