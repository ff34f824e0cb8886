import Chip8.Proofs.InPlace.Agreement
import Chip8.Proofs.Machine.Keys

/-!
# Where a cycle leads

The program counter is moved on with every word that is fetched, and the instruction may move it
again.  Where both together lead is said in numbers, from the machine before the cycle.

* `Machine.Skips`, `holds_eq_true_iff` — what the condition of a skip asks of a machine.
* `Condition.opposite`, `holds_opposite` — of two opposite conditions exactly one holds.
* `Machine.Leads` — the address to which an instruction leads, for every kind of instruction.
* `Effect.leads` — an instruction that is carried out leads there.
* `cycle_leads` — so does every cycle of a reachable machine that succeeds, also on a board; and two
  opposite skips in one state lead to different addresses.
-/

namespace Chip8

/-- The condition that asks for the contrary of the same operands. -/
def Condition.opposite : Condition → Condition
  | isByte x nn => isNotByte x nn
  | isNotByte x nn => isByte x nn
  | same x y => different x y
  | different x y => same x y
  | keyDown x => keyUp x
  | keyUp x => keyDown x

namespace Machine

/-! ## Conditions -/

/-- What the condition of a skip asks: a key is named by the remainder of its register by 16. -/
def Skips (machine : Machine) : Condition → Prop
  | .isByte x nn => machine.registers.get x = nn
  | .isNotByte x nn => machine.registers.get x ≠ nn
  | .same x y => machine.registers.get x = machine.registers.get y
  | .different x y => machine.registers.get x ≠ machine.registers.get y
  | .keyDown x =>
      machine.keypad.isPressed (.ofNat ((machine.registers.get x).toNat % 16)) = true
  | .keyUp x =>
      machine.keypad.isPressed (.ofNat ((machine.registers.get x).toNat % 16)) = false

theorem holds_eq_true_iff (machine : Machine) (condition : Condition) :
    machine.holds condition = true ↔ machine.Skips condition := by
  have hlow (value : UInt8) : Digit.ofNat (value.toNat % 16) = .low value :=
    Digit.ofNat_val (.low value)
  cases condition <;> simp [holds, Skips, hlow]

/-- Of two opposite conditions exactly one holds. -/
theorem holds_opposite (machine : Machine) (condition : Condition) :
    machine.holds condition.opposite = !machine.holds condition := by
  cases condition <;> simp [holds, Condition.opposite, bne]

/-! ## Instructions -/

/-- Where an instruction leads from the machine that stands at it. -/
def Leads (before after : Machine) : Instruction → Prop
  | .ret => ∃ address : UInt16,
      before.stack.held = after.stack.held ++ [address] ∧ after.pc = address
  | .jump target => after.pc.toNat = target.val
  | .call target => after.pc.toNat = target.val ∧ ∃ address : UInt16,
      address.toNat = before.pc.toNat + 2 ∧ after.stack.held = before.stack.held ++ [address]
  | .jumpOffset base =>
      let offset : Digit := if before.dialect.jumpReadsNamed then .ofNat (base.val / 0x100) else
        .ofNat 0
      after.pc.toNat = base.val + (before.registers.get offset).toNat ∧ after.pc.toNat < 0x1000
  | .skipIf condition =>
      (before.Skips condition → after.pc.toNat = before.pc.toNat + 4) ∧
        (¬ before.Skips condition → after.pc.toNat = before.pc.toNat + 2)
  | .waitKey _ =>
      ((∀ key, before.keypad.isPressed key = false) → after.pc.toNat = before.pc.toNat) ∧
        ((∃ key, before.keypad.isPressed key = true) → after.pc.toNat = before.pc.toNat + 2)
  | _ => after.pc.toNat = before.pc.toNat + 2

/-- An instruction that is carried out at a word that has been fetched leads where it should. -/
theorem Effect.leads {machine next : Machine} {instruction : Instruction}
    (heffect : machine.Effect instruction next) (hfetch : machine.Fetches)
    (hdepth : machine.stack.pointer ≤ stackSize) : machine.Leads next instruction := by
  have hinside : machine.pc.toNat + 2 ≤ 0x1000 := hfetch
  have hgoOn : machine.goOn.pc.toNat = machine.pc.toNat + 2 := toNat_pc_add_two hfetch
  cases heffect with
  | ret hpop => exact ⟨_, CallStack.held_pop hdepth hpop, rfl⟩
  | @jump target =>
    show (UInt16.ofNat target.val).toNat = target.val
    rw [UInt16.toNat_ofNat']
    omega
  | @call target stack hpush =>
    refine ⟨?_, _, toNat_pc_add_two hfetch, CallStack.held_push hpush⟩
    show (UInt16.ofNat target.val).toNat = target.val
    rw [UInt16.toNat_ofNat']
    omega
  | @jumpOffset base hreach =>
    -- the target lies in memory, so its word holds the exact sum
    have hreach : machine.jumpTarget base < 0x1000 := hreach
    have htarget : (UInt16.ofNat (machine.jumpTarget base)).toNat = machine.jumpTarget base := by
      rw [UInt16.toNat_ofNat']
      omega
    refine ⟨htarget.trans ?_, htarget.symm ▸ hreach⟩
    rw [jumpTarget]
    split <;> rfl
  | skip hholds =>
    have hskips := (machine.holds_eq_true_iff _).mp hholds
    refine ⟨fun _ => ?_, fun hnot => absurd hskips hnot⟩
    rw [toNat_pc_goOn (hgoOn.symm ▸ hfetch), hgoOn]
  | noSkip hholds =>
    refine ⟨fun hskips => ?_, fun _ => hgoOn⟩
    rw [(machine.holds_eq_true_iff _).mpr hskips] at hholds
    cases hholds
  | resume hkey =>
    have hpressed := (Keypad.firstPressed_eq_some_iff.mp hkey).1
    exact ⟨fun hnone => absurd (hpressed.symm.trans (hnone _)) nofun, fun _ => hgoOn⟩
  | wait hkey =>
    have hnone := Keypad.firstPressed_eq_none_iff.mp hkey
    refine ⟨fun _ => rfl, ?_⟩
    rintro ⟨key, hpressed⟩
    exact absurd (hpressed.symm.trans (hnone key)) nofun
  | _ => exact hgoOn

/-! ## Cycles -/

/-- A cycle of a reachable machine that succeeds leads where the instruction of its word leads from
the machine before the cycle, and it does the same on a board, where the program counter is moved on
first.  Of two opposite skips in the same state exactly one skips. -/
theorem cycle_leads :
    (∀ (machine : Machine) (updated : Bool), machine.Reachable →
      machine.cycle.result = .ok updated →
      ∃ instruction : Instruction, Instruction.decode machine.word = some instruction ∧
        instruction.encode = machine.word ∧
        machine.Leads machine.cycle.machine instruction ∧
        (machine.cycle.machine.cycles < 0x10000000000000000 →
          Work.cycle.on machine.board = (.done updated, machine.cycle.machine.board))) ∧
      ∀ (machine : Machine) (memory : Memory) (condition : Condition),
        let other := { machine with memory }
        machine.due = some (.skipIf condition) → other.due = some (.skipIf condition.opposite) →
        let next := machine.cycle.machine.pc.toNat
        let otherNext := other.cycle.machine.pc.toNat
        (next = machine.pc.toNat + 4 ∧ otherNext = machine.pc.toNat + 2) ∨
          (next = machine.pc.toNat + 2 ∧ otherNext = machine.pc.toNat + 4) := by
  constructor
  · intro machine updated hreach hdone
    obtain ⟨instruction, hdue, heffect, -⟩ := effect_of_ok hdone
    obtain ⟨-, hfetch, hread⟩ := due_eq_some_iff.mp hdue
    have hencode : instruction.encode = machine.word := Instruction.encode_of_decode hread
    -- counting the cycle touches nothing that decides where it leads
    have hleads : machine.beginCycle.Leads machine.cycle.machine instruction :=
      heffect.leads hfetch hreach.sound.pointer_le
    refine ⟨instruction, hread, hencode, ?_, Work.cycle_apply_done hreach.sound hdone⟩
    cases instruction <;> exact hleads
  · intro machine memory condition other hdue hother next otherNext
    have hnext := (cycle_of_skipIf hdue).2
    have hotherNext := (cycle_of_skipIf hother).2
    have hopposite : other.holds condition.opposite = !machine.holds condition := by
      rw [holds_opposite]
      cases condition <;> rfl
    rw [hopposite] at hotherNext
    cases hholds : machine.holds condition with
    | true =>
      rw [hholds] at hnext hotherNext
      exact .inl ⟨hnext, hotherNext⟩
    | false =>
      rw [hholds] at hnext hotherNext
      exact .inr ⟨hnext, hotherNext⟩

/-- A computed jump at an odd address adds the register that its target names; where it leads, a
skip is taken, and the opposite skip in its place is not. -/
theorem cycle_leads_odd_address :
    let program : Program := ⟨[0x62, 0x04, 0xB2, 0x05, 0, 0, 0, 0, 0x32, 0x04]⟩
    let settings : Settings := { programStart := 0x201, dialect := { jumpReadsNamed := true } }
    let start := loaded program settings (.ofSeed 0)
    let machine := start.after [.cycle]
    let next := machine.cycle.machine
    let other := { next with memory := next.memory.put 0x209 [0x42] }
    (boot program settings (.ofSeed 0)).result = .ok start ∧
      (machine.cycle.result = .ok false ∧ machine.cycle.machine.cycles < 0x10000000000000000 ∧
        Instruction.decode machine.word = some (.jumpOffset ⟨0x205, by decide⟩)) ∧
      (next.due = some (.skipIf (.isByte (.ofNat 2) 4)) ∧
        other.due = some (.skipIf (.isNotByte (.ofNat 2) 4))) ∧
      (next.pc.toNat = 0x209 ∧ Work.cycle.on machine.board = (.done false, next.board)) ∧
      next.cycle.machine.pc.toNat = 0x20D ∧ other.cycle.machine.pc.toNat = 0x20B := by
  intro program settings start machine next other
  have hboot : (boot program settings (.ofSeed 0)).result = .ok start :=
    boot_eq_ok_iff.mpr ⟨by decide, by decide, by decide, rfl⟩
  have hreach : machine.Reachable := ⟨_, _, _, start, [.cycle], hboot, rfl⟩
  obtain ⟨hreply, hroom, hread, hoffset, hnamed, hskip, hopposite, htaken⟩ :
      (Operation.cycle.apply machine).reply = .updated false ∧
        machine.cycle.machine.cycles < 0x10000000000000000 ∧
        Instruction.decode machine.word = some (.jumpOffset ⟨0x205, by decide⟩) ∧
        machine.registers.get (.ofNat 2) = 4 ∧ machine.dialect.jumpReadsNamed = true ∧
        next.due = some (.skipIf (.isByte (.ofNat 2) 4)) ∧
        other.due = some (.skipIf (.isNotByte (.ofNat 2) 4)) ∧
        next.registers.get (.ofNat 2) = 4 := by
    decide +kernel
  have hdone : machine.cycle.result = .ok false := reply_eq_updated_iff.mp hreply
  obtain ⟨instruction, hread', -, hleads, hboard⟩ := cycle_leads.1 machine false hreach hdone
  obtain rfl := Option.some.inj (hread.symm.trans hread')
  have hpc : next.pc.toNat = 0x209 := by
    have hsum := hleads.1
    rw [if_pos hnamed] at hsum
    exact hsum.trans (congrArg (fun byte : UInt8 => 0x205 + byte.toNat) hoffset)
  obtain ⟨instruction, hread', -, hleads, -⟩ :=
    cycle_leads.1 next false (hreach.after [.cycle]) (cycle_of_skipIf hskip).1
  obtain rfl := Option.some.inj ((due_eq_some_iff.mp hskip).2.2.symm.trans hread')
  have hnext : next.cycle.machine.pc.toNat = next.pc.toNat + 4 := hleads.1 htaken
  obtain ⟨-, hother⟩ | ⟨hstays, -⟩ := cycle_leads.2 next (next.memory.put 0x209 [0x42])
    (.isByte (.ofNat 2) 4) hskip hopposite
  · rw [hpc] at hnext hother
    exact ⟨hboot, ⟨hdone, hroom, hread⟩, ⟨hskip, hopposite⟩, ⟨hpc, hboard hroom⟩, hnext, hother⟩
  · exact absurd (hnext.symm.trans hstays) (by omega)

end Machine
end Chip8
