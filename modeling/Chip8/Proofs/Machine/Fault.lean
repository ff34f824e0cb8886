import Chip8.Proofs.InPlace.Agreement
import Chip8.Proofs.Instruction.Number

/-!
# When a cycle meets a fault

The faults of a cycle can be read off the word at the program counter, the program counter, the
depth of the stack, the index register and one variable register.

* `Machine.Meets` — the causes, each with its fault, in terms of these numbers alone.
* `fault?_eq_some_iff` — the next cycle has a fault exactly for one of the causes.
* `cycle_fails_iff_meets` — the next cycle fails exactly for one of the causes and with its fault,
  and otherwise tells whether its word clears the screen or draws; on a board it ends alike.
-/

namespace Chip8
namespace Machine

/-- Where a computed jump leads, as an exact sum: the address in the word and the register that the
dialect takes. -/
def jumpSum (machine : Machine) : Nat :=
  let x := if machine.dialect.jumpReadsNamed then machine.word.toNat / 0x100 % 0x10 else 0
  machine.word.toNat % 0x1000 + (machine.registers.get (.ofNat x)).toNat

/-- The number of bytes that a word reads or writes from the index register on. -/
inductive Moves (word : UInt16) : Nat → Prop
  | sprite : word.toNat / 0x1000 = 0xD → Moves word (word.toNat % 0x10)
  | decimal : word.toNat / 0x1000 = 0xF → word.toNat % 0x100 = 0x33 → Moves word 3
  | store : word.toNat / 0x1000 = 0xF → word.toNat % 0x100 = 0x55 →
      Moves word (word.toNat / 0x100 % 0x10 + 1)
  | load : word.toNat / 0x1000 = 0xF → word.toNat % 0x100 = 0x65 →
      Moves word (word.toNat / 0x100 % 0x10 + 1)

/-- The causes for which a cycle fails, each with its fault. -/
inductive Meets (machine : Machine) : Fault → Prop
  /-- No word fits between the program counter and the end of memory. -/
  | fetch : memorySize < machine.pc.toNat + 2 →
      Meets machine (.addressOutOfBounds (max machine.pc.toNat memorySize))
  /-- The word belongs to no instruction. -/
  | unknown : machine.pc.toNat + 2 ≤ memorySize →
      (∀ instruction : Instruction, instruction.encode ≠ machine.word) →
      Meets machine (.unknownInstruction machine.word)
  /-- A return without a call. -/
  | ret : machine.pc.toNat + 2 ≤ memorySize → machine.word = 0x00EE →
      machine.stack.depth = 0 → Meets machine .stackEmpty
  /-- A call beyond the last entry of the stack. -/
  | call : machine.pc.toNat + 2 ≤ memorySize → machine.word.toNat / 0x1000 = 0x2 →
      machine.stack.depth = stackSize → Meets machine .stackFull
  /-- A computed jump out of memory. -/
  | jump : machine.pc.toNat + 2 ≤ memorySize → machine.word.toNat / 0x1000 = 0xB →
      memorySize ≤ machine.jumpSum → Meets machine (.addressOutOfBounds machine.jumpSum)
  /-- A sprite or a block that does not lie in memory. -/
  | access (length : Nat) : machine.pc.toNat + 2 ≤ memorySize → Moves machine.word length →
      memorySize < machine.index.toNat + length →
      Meets machine (.addressOutOfBounds (max machine.index.toNat memorySize))

section Causes

variable {machine : Machine}

theorem accessRefusal_eq_some_iff {length : Nat} {fault : Fault} :
    machine.accessRefusal length = some fault ↔
      memorySize < machine.index.toNat + length ∧
        fault = .addressOutOfBounds (max machine.index.toNat memorySize) := by
  unfold accessRefusal
  split
  · next hinside => exact ⟨nofun, fun h => absurd h.1 (Nat.not_lt_of_le hinside)⟩
  · next houtside =>
    exact ⟨fun h => ⟨Nat.lt_of_not_le houtside, (Option.some.inj h).symm⟩, fun h => h.2 ▸ rfl⟩

theorem jumpTarget_eq_jumpSum {base : Address}
    (hnumber : machine.word.toNat = 0x1000 * 0xB + base.val) :
    machine.jumpTarget base = machine.jumpSum := by
  have hbase : machine.word.toNat % 0x1000 = base.val := by omega
  have hdigit : machine.word.toNat / 0x100 % 0x10 = base.val / 256 := by omega
  unfold jumpTarget jumpSum
  rw [hbase, hdigit]

/-- A refused instruction is one of the causes. -/
theorem meets_of_refusal {instruction : Instruction} {fault : Fault}
    (hdepth : machine.stack.pointer ≤ stackSize) (hfetch : machine.Fetches)
    (hread : Instruction.decode machine.word = some instruction)
    (hrefused : machine.refusal instruction = some fault) : machine.Meets fault := by
  have hnumber := (Instruction.number_of_decode hread).1
  cases instruction with
  | ret =>
    simp only [refusal] at hrefused
    split at hrefused <;> cases hrefused
    next hempty => exact .ret hfetch (UInt16.toNat_inj.mp hnumber) hempty
  | call target =>
    simp only [refusal] at hrefused
    split at hrefused <;> cases hrefused
    next hfull =>
      rw [Instruction.number] at hnumber
      exact .call hfetch (by omega) (Nat.le_antisymm hdepth (Nat.le_of_not_lt hfull))
  | jumpOffset base =>
    simp only [refusal, jumpTarget_eq_jumpSum hnumber] at hrefused
    split at hrefused <;> cases hrefused
    next hfar =>
      rw [Instruction.number] at hnumber
      exact .jump hfetch (by omega) (Nat.le_of_not_lt hfar)
  | draw x y rows =>
    -- a sprite without rows is refused too if the index register points beyond memory
    obtain ⟨houtside, rfl⟩ := accessRefusal_eq_some_iff.mp hrefused
    rw [Instruction.number] at hnumber
    have hlength : machine.word.toNat % 0x10 = rows.val := by omega
    exact .access _ hfetch (.sprite (by omega)) (hlength ▸ houtside)
  | storeDecimal x =>
    obtain ⟨houtside, rfl⟩ := accessRefusal_eq_some_iff.mp hrefused
    rw [Instruction.number] at hnumber
    exact .access _ hfetch (.decimal (by omega) (by omega)) houtside
  | storeBlock x =>
    obtain ⟨houtside, rfl⟩ := accessRefusal_eq_some_iff.mp hrefused
    rw [Instruction.number] at hnumber
    have hlength : machine.word.toNat / 0x100 % 0x10 + 1 = x.val + 1 := by omega
    exact .access _ hfetch (.store (by omega) (by omega)) (hlength ▸ houtside)
  | loadBlock x =>
    obtain ⟨houtside, rfl⟩ := accessRefusal_eq_some_iff.mp hrefused
    rw [Instruction.number] at hnumber
    have hlength : machine.word.toNat / 0x100 % 0x10 + 1 = x.val + 1 := by omega
    exact .access _ hfetch (.load (by omega) (by omega)) (hlength ▸ houtside)
  | _ => cases hrefused

/-- A word that moves bytes is refused if they do not lie in memory. -/
theorem fault?_of_moves {length : Nat} (hfetch : machine.Fetches)
    (hmoves : Moves machine.word length) : machine.fault? = machine.accessRefusal length := by
  -- the digits of the word name the operands, so that each family is one linear equation
  have hdigits := Digit.toNat_eq_digits machine.word
  generalize hx : Digit.ofWord machine.word 2 = x at hdigits
  generalize hy : Digit.ofWord machine.word 1 = y at hdigits
  generalize hn : Digit.ofWord machine.word 0 = n at hdigits
  cases hmoves with
  | sprite hfamily =>
    have hread : Instruction.decode machine.word = some (.draw x y n) :=
      Instruction.decode_of_number trivial (by rw [Instruction.number]; omega)
    rw [fault?_of_decode hfetch hread, refusal]
    exact congrArg machine.accessRefusal (by omega)
  | decimal hfamily hcode =>
    have hread : Instruction.decode machine.word = some (.storeDecimal x) :=
      Instruction.decode_of_number trivial (by rw [Instruction.number]; omega)
    rw [fault?_of_decode hfetch hread, refusal]
  | store hfamily hcode =>
    have hread : Instruction.decode machine.word = some (.storeBlock x) :=
      Instruction.decode_of_number trivial (by rw [Instruction.number]; omega)
    rw [fault?_of_decode hfetch hread, refusal]
    exact congrArg machine.accessRefusal (by omega)
  | load hfamily hcode =>
    have hread : Instruction.decode machine.word = some (.loadBlock x) :=
      Instruction.decode_of_number trivial (by rw [Instruction.number]; omega)
    rw [fault?_of_decode hfetch hread, refusal]
    exact congrArg machine.accessRefusal (by omega)

theorem meets_of_fault {fault : Fault} (hdepth : machine.stack.pointer ≤ stackSize)
    (hfault : machine.fault? = some fault) : machine.Meets fault := by
  unfold fault? at hfault
  split at hfault
  · next hfetch =>
    split at hfault
    · next hread =>
      obtain rfl := Option.some.inj hfault
      exact .unknown hfetch (Instruction.decode_eq_none_iff.mp hread)
    · next instruction hread => exact meets_of_refusal hdepth hfetch hread hfault
  · next hfetch =>
    obtain rfl := Option.some.inj hfault
    exact .fetch (Nat.lt_of_not_le hfetch)

theorem fault_of_meets {fault : Fault} (hmeets : machine.Meets fault) :
    machine.fault? = some fault := by
  cases hmeets with
  | fetch houtside => exact if_neg (Nat.not_le_of_lt houtside)
  | unknown hfetch hfree =>
    refine (if_pos hfetch).trans ?_
    rw [Instruction.decode_eq_none_iff.mpr hfree]
  | ret hfetch hword hempty =>
    have hread : Instruction.decode machine.word = some .ret := by rw [hword]; rfl
    rw [fault?_of_decode hfetch hread, refusal]
    exact if_pos hempty
  | call hfetch hfamily hfull =>
    rw [fault?_of_decode hfetch (Instruction.decode_call hfamily), refusal]
    exact if_neg (by rw [← CallStack.depth, hfull]; exact Nat.lt_irrefl _)
  | jump hfetch hfamily hfar =>
    have hnumber : machine.word.toNat = 0x1000 * 0xB + machine.word.toNat % 0x1000 := by omega
    have hread : Instruction.decode machine.word = some (.jumpOffset (.ofWord machine.word)) :=
      Instruction.decode_of_number trivial hnumber
    rw [fault?_of_decode hfetch hread, refusal, jumpTarget_eq_jumpSum hnumber]
    exact if_neg (Nat.not_lt_of_le hfar)
  | access length hfetch hmoves houtside =>
    rw [fault?_of_moves hfetch hmoves]
    exact accessRefusal_eq_some_iff.mpr ⟨houtside, rfl⟩

/-- The next cycle of a machine that has not crashed has a fault exactly for one of the causes. -/
theorem fault?_eq_some_iff {fault : Fault} (hdepth : machine.stack.pointer ≤ stackSize) :
    machine.fault? = some fault ↔ machine.Meets fault :=
  ⟨meets_of_fault hdepth, fault_of_meets⟩

/-- The instructions that can change the screen are the two families of words that do. -/
theorem updatesScreen_eq_true_iff {word : UInt16} {instruction : Instruction}
    (hread : Instruction.decode word = some instruction) :
    instruction.updatesScreen = true ↔ word = 0x00E0 ∨ word.toNat / 0x1000 = 0xD := by
  obtain ⟨hnumber, hown⟩ := Instruction.number_of_decode hread
  rw [← UInt16.toNat_inj]
  show _ ↔ word.toNat = 0x00E0 ∨ _
  cases instruction with
  | clearScreen => exact iff_of_true rfl (.inl hnumber)
  | draw x y rows =>
    rw [Instruction.number] at hnumber
    exact iff_of_true rfl (.inr (by omega))
  | machineCall target =>
    -- the family of `0x00E0`, which is not its own word
    rw [Instruction.number] at hnumber
    have hclear := hown.1
    exact iff_of_false Bool.false_ne_true (by omega)
  | skipIf condition =>
    rw [Instruction.number] at hnumber
    refine iff_of_false Bool.false_ne_true ?_
    cases condition with
    | isByte x nn | isNotByte x nn =>
      rw [Condition.number] at hnumber
      have hnn := nn.toNat_lt
      omega
    | _ =>
      rw [Condition.number] at hnumber
      omega
  | combine op x y =>
    rw [Instruction.number] at hnumber
    have hop := op.number_lt
    exact iff_of_false Bool.false_ne_true (by omega)
  | setByte x nn | addByte x nn | random x nn =>
    rw [Instruction.number] at hnumber
    have hnn := nn.toNat_lt
    exact iff_of_false Bool.false_ne_true (by omega)
  | _ =>
    rw [Instruction.number] at hnumber
    exact iff_of_false Bool.false_ne_true (by omega)

end Causes

/-- The next cycle of a reachable machine that has not crashed fails exactly for one of the causes,
and with its fault; otherwise it succeeds, and tells whether its word clears the screen or draws.
As long as cycles can be counted, it ends in the same way on a board. -/
theorem cycle_fails_iff_meets {machine : Machine} (hreach : machine.Reachable)
    (hlive : machine.status ≠ .crashed) :
    (∀ fault, (∃ crash, machine.cycle.result = .error crash ∧ crash.fault = fault) ↔
        machine.Meets fault) ∧
      (∀ updated, machine.cycle.result = .ok updated ↔
        (∀ fault, ¬ machine.Meets fault) ∧
          (updated = true ↔ machine.word = 0x00E0 ∨ machine.word.toNat / 0x1000 = 0xD)) ∧
      (machine.cycle.machine.cycles < 0x10000000000000000 →
        Work.cycle.on machine.board =
          Work.ofExcept machine.cycle.result machine.cycle.machine.board) := by
  rw [← and_assoc]
  refine ⟨?_, fun hroom => Work.cycle_apply hreach.sound hroom⟩
  have hdepth := hreach.sound.pointer_le
  cases hfault : machine.fault? with
  | some fault =>
    obtain ⟨records, hcycle⟩ := cycle_of_fault hlive hfault
    have hmeets := (fault?_eq_some_iff hdepth).mp hfault
    rw [hcycle]
    refine ⟨fun other => ?_, fun updated => ⟨nofun, fun h => absurd hmeets (h.1 fault)⟩⟩
    rw [← fault?_eq_some_iff hdepth, hfault]
    constructor
    · rintro ⟨crash, hcrash, rfl⟩
      exact congrArg (fun crash => some crash.fault) (Except.error.inj hcrash)
    · intro hsame
      exact ⟨_, rfl, Option.some.inj hsame⟩
  | none =>
    obtain ⟨-, instruction, next, records, hread, -, hcycle⟩ := cycle_of_done hlive hfault
    have hfree : ∀ fault, ¬ machine.Meets fault := by
      intro fault hmeets
      rw [(fault?_eq_some_iff hdepth).mpr hmeets] at hfault
      cases hfault
    rw [hcycle]
    refine ⟨fun fault => ⟨nofun, fun hmeets => absurd hmeets (hfree fault)⟩, fun updated => ?_⟩
    rw [← updatesScreen_eq_true_iff hread]
    constructor
    · intro hupdated
      rw [Except.ok.inj hupdated]
      exact ⟨hfree, Iff.rfl⟩
    · rintro ⟨-, hupdated⟩
      exact congrArg Except.ok (Bool.eq_iff_iff.mpr hupdated).symm

/-- A jump to `0xFFF` plus a register that holds one leads just out of memory, on a board too. -/
theorem cycle_fails_far_jump :
    let start := loaded ⟨[0x60, 0x01, 0xBF, 0xFF]⟩ {} (.ofSeed 0)
    let machine := start.after [.cycle]
    (boot ⟨[0x60, 0x01, 0xBF, 0xFF]⟩ {} (.ofSeed 0)).result = .ok start ∧
      (machine.status ≠ .crashed ∧ machine.cycle.machine.cycles < 0x10000000000000000) ∧
      ∃ crash, machine.cycle.result = .error crash ∧ crash.fault = .addressOutOfBounds 0x1000 ∧
        Work.cycle.on machine.board = (.refused crash, machine.cycle.machine.board) := by
  intro start machine
  have hboot : (boot ⟨[0x60, 0x01, 0xBF, 0xFF]⟩ {} (.ofSeed 0)).result = .ok start :=
    boot_eq_ok_iff.mpr ⟨by decide, by decide, by decide, rfl⟩
  have hreach : machine.Reachable := ⟨_, _, _, start, [.cycle], hboot, rfl⟩
  obtain ⟨hlive, hroom, hfetch, hfamily, hsum⟩ : machine.status ≠ .crashed ∧
      machine.cycle.machine.cycles < 0x10000000000000000 ∧ machine.Fetches ∧
      machine.word.toNat / 0x1000 = 0xB ∧ machine.jumpSum = 0x1000 := by
    decide +kernel
  have hmeets : machine.Meets (.addressOutOfBounds 0x1000) :=
    hsum ▸ .jump hfetch hfamily (Nat.le_of_eq hsum.symm)
  obtain ⟨hfails, -, hboard⟩ := cycle_fails_iff_meets hreach hlive
  obtain ⟨crash, hcrash, hfault⟩ := (hfails _).mpr hmeets
  have hrefused := hboard hroom
  rw [hcrash] at hrefused
  exact ⟨hboot, ⟨hlive, hroom⟩, crash, hcrash, hfault, hrefused⟩

end Machine
end Chip8
