import Chip8.Proofs.InPlace.Painting
import Chip8.Proofs.Machine.Sound
import Chip8.Proofs.Random.Supply

/-!
# A board follows its machine

* `carryOut_apply` — an instruction changes the board as `Machine.execute` changes the machine.
* `cycle_apply`, `frame_apply` — so do cycles and frames, with the same answers and crashes;
  `cycle_apply_done`, `cycle_apply_refused` for a cycle whose result is known.
* `perform_board`, `run_board` — and so does whatever a host asks, one operation after the other.
  No step slips on the way, because the machine keeps within its ranges.
-/

namespace Chip8
namespace Work

/-! ## Instructions -/

section Execute

variable {machine : Machine}

/-- How an instruction ends on a board from which the program counter has moved on. -/
def carried (machine : Machine) (result : Except Fault Machine) : Ending Fault Unit × Board :=
  match result with
  | .ok next => (.done (), next.board)
  | .error fault => (.refused fault, machine.goOn.board)

/-- Work that goes by the result of an operation is followed by the rest of an instruction, on the
board and on the machine alike. -/
theorem carried_bind {α β : Type} {work : Work Fault α} {next : α → Work Fault Unit}
    {result : Except Fault β} {after : β → Except Fault Machine} {value : β → α}
    {change : β → Board}
    (hwork : work.on machine.goOn.board = goBy result value change machine.goOn.board)
    (hnext : ∀ found, result = .ok found →
      (next (value found)).on (change found) = carried machine (after found)) :
    (work >>= next).on machine.goOn.board = carried machine (result >>= after) := by
  cases result with
  | ok found => exact (bind_goBy hwork).trans (hnext found rfl)
  | error fault => exact bind_goBy hwork

theorem carryOut_ret (hsound : machine.Sound) :
    (carryOut .ret).on machine.goOn.board = carried machine (machine.execute .ret) := by
  have hdepth : machine.goOn.board.stack.pointer ≤ stackSize := hsound.pointer_le
  exact carried_bind (pop_apply hdepth) fun popped _ => rfl

theorem carryOut_call (target : Address) :
    (carryOut (.call target)).on machine.goOn.board =
      carried machine (machine.execute (.call target)) := by
  rw [carryOut, bind_done (look_apply _)]
  exact carried_bind (push_apply (machine.pc + 2) machine.goOn.board) fun stack _ => rfl

theorem carryOut_skipIf (hfetch : machine.Fetches) (condition : Condition) :
    (carryOut (.skipIf condition)).on machine.goOn.board =
      carried machine (machine.execute (.skipIf condition)) := by
  have hholds : machine.goOn.holds condition = machine.holds condition := by
    cases condition <;> rfl
  -- a word was fetched below, so the skip is exact even if it leads beyond memory
  have hpc : machine.goOn.board.pc.toNat + 2 < 0x10000 := by
    have hnext := Machine.toNat_pc_add_two hfetch
    have hinside : machine.pc.toNat + 2 ≤ 4096 := hfetch
    show (machine.pc + 2).toNat + 2 < 0x10000
    omega
  rw [carryOut, Machine.execute]
  rw [bind_done (holds_apply condition machine.goOn), hholds]
  cases machine.holds condition with
  | true =>
    rw [if_pos rfl, if_pos rfl, advance_apply hpc]
    rfl
  | false => rfl

theorem carryOut_combine (op : Combine) (x y : Digit) :
    (carryOut (.combine op x y)).on machine.goOn.board =
      carried machine (machine.execute (.combine op x y)) := by
  rw [carryOut, Machine.execute, bind_done (look_apply _), bind_done (register_apply x _),
    bind_done (register_apply y _), setCombined_apply]
  rfl

theorem carryOut_jumpOffset (base : Address) :
    (carryOut (.jumpOffset base)).on machine.goOn.board =
      carried machine (machine.execute (.jumpOffset base)) := by
  let x := Digit.ofNat (if machine.dialect.jumpReadsNamed then base.val / 256 else 0)
  have hx : (if machine.dialect.jumpReadsNamed then base.val / 256 % 16 else 0) = x.val := by
    show _ = (if machine.dialect.jumpReadsNamed then base.val / 256 else 0) % 16
    split <;> rfl
  have hregisters : machine.goOn.board.registers = machine.registers := rfl
  -- twelve bits and eight bits: the sum is exact whether or not it lies in memory
  have hbase : (UInt16.ofNat base.val).toNat = base.val := by
    rw [UInt16.toNat_ofNat']
    omega
  have hoffset := (machine.registers.get x).toNat_lt
  have hsum : (UInt16.ofNat base.val).toNat + (machine.registers.get x).toUInt16.toNat <
      0x10000 := by
    rw [hbase, UInt8.toNat_toUInt16]
    omega
  have htarget : (UInt16.ofNat base.val + (machine.registers.get x).toUInt16).toNat =
      machine.jumpTarget base := by
    rw [UInt16.toNat_add, hbase, UInt8.toNat_toUInt16]
    exact Nat.mod_eq_of_lt (by omega)
  have hword : UInt16.ofNat (machine.jumpTarget base) =
      UInt16.ofNat base.val + (machine.registers.get x).toUInt16 := by
    rw [← htarget, UInt16.ofNat_toNat]
  rw [carryOut, Machine.execute, bind_done (look_apply _)]
  show (register (if machine.dialect.jumpReadsNamed then base.val / 256 % 16 else 0) >>= _).on
    machine.goOn.board = _
  rw [hx, bind_done (register_apply x _), hregisters, bind_done (sum_apply hsum _), htarget]
  by_cases hinside : machine.jumpTarget base < memorySize
  · rw [if_pos hinside, bind_done (allow_apply hinside _ _), hword]
    rfl
  · rw [if_neg hinside, bind_refused (allow_apply_of_not hinside _ _)]
    rfl

theorem carryOut_random (x : Digit) (nn : UInt8) :
    (carryOut (.random x nn)).on machine.goOn.board =
      carried machine (machine.execute (.random x nn)) := by
  have hnext : machine.goOn.board.random.next =
      (machine.random.peek, machine.random.advance.supply) := machine.random.next_supply
  rw [carryOut, bind_done (look_apply _), hnext]
  exact setRegister_apply x _ _

theorem carryOut_draw (x y rows : Digit) :
    (carryOut (.draw x y rows)).on machine.goOn.board =
      carried machine (machine.execute (.draw x y rows)) := by
  rw [carryOut, bind_done (look_apply _)]
  refine carried_bind (readRange_apply machine.index.toNat rows.val machine.goOn.board)
    fun sprite _ => ?_
  rw [bind_done (look_apply _)]
  refine (bind_done (register_apply x _)).trans ((bind_done (register_apply y _)).trans ?_)
  have hpaint := paint_apply (ε := Fault) machine.dialect.edge (machine.registers.get x).toNat
    (machine.registers.get y).toNat sprite machine.goOn.board machine.screen
  refine (bind_done hpaint).trans ?_
  rw [setRegister_apply]
  rfl

theorem carryOut_waitKey (hfetch : machine.Fetches) (x : Digit) :
    (carryOut (.waitKey x)).on machine.goOn.board =
      carried machine (machine.execute (.waitKey x)) := by
  -- going back undoes the step past this very instruction
  have hback : 2 ≤ machine.goOn.board.pc.toNat := by
    show 2 ≤ (machine.pc + 2).toNat
    rw [Machine.toNat_pc_add_two hfetch]
    exact Nat.le_add_left 2 _
  have hstay : machine.pc + 2 - 2 = machine.pc := UInt16.add_sub_cancel _ _
  have hkeypad : machine.goOn.board.keypad = machine.keypad := rfl
  rw [carryOut, Machine.execute, bind_done (firstPressed_apply _), hkeypad]
  cases machine.keypad.firstPressed with
  | some key =>
    show (setRegister x.val (UInt8.ofNat key.val) >>= fun _ => _).on machine.goOn.board = _
    rw [bind_done (setRegister_apply x _ _), alter_apply]
    rfl
  | none =>
    show (retreat >>= fun _ => _).on machine.goOn.board = _
    rw [bind_done (retreat_apply hback), alter_apply]
    show (Ending.done (), { machine.board with
      pc := machine.pc + 2 - 2, status := .waitingForKeypress }) = _
    rw [hstay]
    rfl

theorem carryOut_pointGlyph (hsound : machine.Sound) (x : Digit) :
    (carryOut (.pointGlyph x)).on machine.goOn.board =
      carried machine (machine.execute (.pointGlyph x)) := by
  have hglyph := Font.offset_add_glyphSize_le (Digit.low (machine.registers.get x))
  -- the font lies before the program, which starts in memory
  have hroom : machine.fontStart.toNat + Font.offset (Digit.low (machine.registers.get x)) <
      0x10000 := by
    have hfont := hsound.font_le
    have hprogram : machine.programStart.toNat ≤ 4096 := hsound.program_le
    omega
  rw [carryOut, Machine.execute, bind_done (register_apply x _), bind_done (look_apply _)]
  exact bind_done (narrow_apply hroom _)

theorem carryOut_storeDecimal (x : Digit) :
    (carryOut (.storeDecimal x)).on machine.goOn.board =
      carried machine (machine.execute (.storeDecimal x)) := by
  rw [carryOut, bind_done (register_apply x _), bind_done (look_apply _)]
  refine Eq.trans (writeRange_apply machine.index.toNat (decimalDigits (machine.registers.get x))
    machine.goOn.board) ?_
  rw [Machine.execute]
  show goBy (machine.memory.write _ _) _ _ _ = _
  cases machine.memory.write machine.index.toNat (decimalDigits (machine.registers.get x)) with
  | ok memory => rfl
  | error fault => rfl

theorem carryOut_storeBlock (x : Digit) :
    (carryOut (.storeBlock x)).on machine.goOn.board =
      carried machine (machine.execute (.storeBlock x)) := by
  rw [carryOut, bind_done (registersUpTo_apply x _), bind_done (look_apply _)]
  refine carried_bind (writeRange_apply machine.index.toNat (machine.registers.upTo x)
    machine.goOn.board) fun memory _ => ?_
  exact passBlock_apply x _

theorem carryOut_loadBlock (x : Digit) :
    (carryOut (.loadBlock x)).on machine.goOn.board =
      carried machine (machine.execute (.loadBlock x)) := by
  rw [carryOut, bind_done (look_apply _)]
  refine carried_bind (readRange_apply machine.index.toNat (x.val + 1) machine.goOn.board)
    fun bytes hread => ?_
  -- a block is as long as the range that was read for it
  have hlength : x.val + 1 = bytes.length := by
    obtain ⟨-, rfl⟩ := Memory.read_eq_ok_iff.mp hread
    exact (Memory.length_slice ..).symm
  rw [id_eq, bind_done (loadRegisters_apply hlength _), passBlock_apply]
  rfl

/-- An instruction changes the board as it changes the machine, and is refused with the same fault;
none of its steps slips. -/
theorem carryOut_apply (hsound : machine.Sound) (hfetch : machine.Fetches)
    (instruction : Instruction) :
    (carryOut instruction).on machine.goOn.board =
      carried machine (machine.execute instruction) := by
  cases instruction with
  | clearScreen =>
    exact congrArg (Prod.mk _) (clear_withScreen machine.goOn.board machine.screen)
  | ret => exact carryOut_ret hsound
  | machineCall target | jump target | setIndex target => rfl
  | call target => exact carryOut_call target
  | skipIf condition => exact carryOut_skipIf hfetch condition
  | setByte x nn => exact setRegister_apply x nn _
  | addByte x nn => exact (bind_done (register_apply x _)).trans (setRegister_apply x _ _)
  | combine op x y => exact carryOut_combine op x y
  | jumpOffset base => exact carryOut_jumpOffset base
  | random x nn => exact carryOut_random x nn
  | draw x y rows => exact carryOut_draw x y rows
  | readDelay x => exact (bind_done (look_apply _)).trans (setRegister_apply x _ _)
  | waitKey x => exact carryOut_waitKey hfetch x
  | setDelay x | setSound x | addIndex x => exact bind_done (register_apply x _)
  | pointGlyph x => exact carryOut_pointGlyph hsound x
  | storeDecimal x => exact carryOut_storeDecimal x
  | storeBlock x => exact carryOut_storeBlock x
  | loadBlock x => exact carryOut_loadBlock x

end Execute

/-! ## Cycles -/

section Cycle

variable {machine : Machine}

theorem snapshot_board (machine : Machine) : machine.board.snapshot = machine.snapshot := by
  have hscreen : machine.board.screen = machine.screen :=
    Board.screen_withScreen machine.board machine.screen
  unfold Board.snapshot Machine.snapshot
  rw [hscreen]
  rfl

theorem crash_board {α : Type} (word : Option UInt16) (fault : Fault) :
    (crash word fault : Work Crash α).on machine.board =
      (.refused (machine.crash word fault), machine.halt.board) := by
  rw [crash_apply]
  show (Ending.refused (Crash.mk _ machine.halt.board.snapshot), machine.halt.board) = _
  rw [snapshot_board]
  rfl

/-- A fetched word does to the board what it does to the machine. -/
theorem perform_apply (hsound : machine.Sound) (hfetch : machine.Fetches) (word : UInt16) :
    (perform word).on machine.board =
      ofExcept (machine.perform word).result (machine.perform word).machine.board := by
  unfold perform decode Machine.perform
  cases hdecode : Instruction.decode word with
  | none =>
    rw [bind_refused (crash_board _ _)]
    rfl
  | some instruction =>
    have hpc : machine.board.pc.toNat + 2 < 0x10000 := by
      have hinside : machine.pc.toNat + 2 ≤ 4096 := hfetch
      show machine.pc.toNat + 2 < 0x10000
      omega
    have hcarry := carryOut_apply hsound hfetch instruction
    simp only
    rw [bind_done (pure_apply _ _), bind_done (look_apply _), bind_done (advance_apply hpc)]
    cases hexecute : machine.execute instruction with
    | ok next =>
      rw [hexecute] at hcarry
      exact bind_done (attempt_done hcarry)
    | error fault =>
      rw [hexecute] at hcarry
      refine bind_refused ((attempt_refused hcarry).trans ?_)
      exact (bind_done (leap_apply _ _)).trans (crash_board _ _)

/-- A cycle changes the board as it changes the machine, as long as cycles can be counted. -/
theorem cycle_apply (hsound : machine.Sound)
    (hroom : machine.cycle.machine.cycles < 0x10000000000000000) :
    cycle.on machine.board = ofExcept machine.cycle.result machine.cycle.machine.board := by
  by_cases hcrashed : machine.status = .crashed
  · have hboard : machine.board.status = .crashed := hcrashed
    rw [cycle_refused_of_crashed hboard, snapshot_board, Machine.cycle_of_crashed hcrashed]
    show _ = (Ending.refused (machine.crash none .halted), machine.halt.board)
    unfold Machine.crash
    rw [Machine.halt_of_crashed hcrashed]
    rfl
  · have hboard : machine.board.status ≠ .crashed := hcrashed
    rw [Machine.cycles_cycle hcrashed] at hroom
    have hread := readWord_apply machine.pc.toNat machine.beginCycle.board
    have hmemory : machine.beginCycle.board.memory = machine.memory := rfl
    rw [hmemory, Memory.readWord_eq] at hread
    unfold cycle
    rw [bind_done (wake_apply hboard), bind_done (count_apply hroom), bind_done (look_apply _)]
    show (attempt (readWord machine.pc.toNat) (crash none) >>= perform).on
      machine.beginCycle.board = _
    by_cases hfetch : machine.Fetches
    · have hinside : machine.pc.toNat + 2 ≤ memorySize := hfetch
      rw [if_pos hinside] at hread
      rw [bind_done (attempt_done hread), Machine.cycle_of_fetches hcrashed hfetch]
      exact perform_apply hsound.beginCycle hfetch machine.word
    · have houtside : ¬ machine.pc.toNat + 2 ≤ memorySize := hfetch
      rw [if_neg houtside] at hread
      rw [bind_refused ((attempt_refused hread).trans (crash_board _ _)),
        Machine.cycle_of_not_fetches hcrashed hfetch]
      rfl

theorem cycle_apply_done {updated : Bool} (hsound : machine.Sound)
    (hdone : machine.cycle.result = .ok updated)
    (hroom : machine.cycle.machine.cycles < 0x10000000000000000) :
    cycle.on machine.board = (.done updated, machine.cycle.machine.board) := by
  rw [cycle_apply hsound hroom, hdone]
  rfl

theorem cycle_apply_refused {crash : Crash} (hsound : machine.Sound)
    (hfailed : machine.cycle.result = .error crash)
    (hroom : machine.cycle.machine.cycles < 0x10000000000000000) :
    cycle.on machine.board = (.refused crash, machine.cycle.machine.board) := by
  rw [cycle_apply hsound hroom, hfailed]
  rfl

end Cycle

/-! ## Frames -/

theorem cycles_le_cycle (machine : Machine) : machine.cycles ≤ machine.cycle.machine.cycles := by
  by_cases hcrashed : machine.status = .crashed
  · rw [Machine.cycle_of_crashed hcrashed]
    exact Nat.le_refl _
  · rw [Machine.cycles_cycle hcrashed]
    exact Nat.le_succ _

theorem cycles_le_resume (count : Nat) (run : Machine.Run) :
    run.machine.cycles ≤ (Machine.resume count run).machine.cycles := by
  induction count generalizing run with
  | zero => exact Nat.le_refl _
  | succ count ih =>
    refine Nat.le_trans (cycles_le_cycle run.machine) ?_
    cases hresult : run.machine.cycle.result with
    | ok updated =>
      rw [Machine.resume_of_ok count hresult]
      exact ih (run.next updated)
    | error crash =>
      rw [Machine.resume_of_error count hresult]
      exact Nat.le_refl _

/-- The cycles of a run change the board as they change the machine, up to the first crash. -/
theorem cycles_apply (count : Nat) (run : Machine.Run) (hsound : run.machine.Sound)
    (hrun : run.crash = none)
    (hroom : (Machine.resume count run).machine.cycles < 0x10000000000000000) :
    (cycles count (0 < run.updates)).on run.machine.board =
      match (Machine.resume count run).crash with
      | none => (.done (decide (0 < (Machine.resume count run).updates)),
          (Machine.resume count run).machine.board)
      | some crash => (.refused crash, (Machine.resume count run).machine.board) := by
  -- along the run: both stop at the first crash, and the frame is new if a cycle so far made it so
  induction count generalizing run with
  | zero =>
    rw [Machine.resume, hrun]
    rfl
  | succ count ih =>
    rw [cycles]
    cases hresult : run.machine.cycle.result with
    | ok updated =>
      rw [Machine.resume_of_ok count hresult] at hroom ⊢
      have hfirst := Nat.lt_of_le_of_lt (cycles_le_resume count (run.next updated)) hroom
      have hcycle := cycle_apply_done hsound hresult hfirst
      have hrest := ih (run.next updated) hsound.cycle rfl hroom
      have hupdates : (decide (0 < run.updates) || updated) =
          decide (0 < (run.next updated).updates) := by
        cases updated <;> simp [Machine.Run.next]
      rw [bind_done hcycle, hupdates]
      exact hrest
    | error crash =>
      rw [Machine.resume_of_error count hresult] at hroom ⊢
      exact bind_refused (cycle_apply_refused hsound hresult hroom)

/-- A frame changes the board as it changes the machine. -/
theorem frame_apply {machine : Machine} (hsound : machine.Sound)
    (hroom : machine.frame.machine.cycles < 0x10000000000000000) :
    frame.on machine.board = ofExcept machine.frame.result machine.frame.machine.board := by
  let count := machine.cyclesPerFrame.toNat
  let run : Machine.Run := ⟨machine, 0, 0, none, #[]⟩
  have hframe : machine.frame = match (Machine.resume count run).crash with
      | none => ⟨(Machine.resume count run).machine.tick,
          .ok (decide (0 < (Machine.resume count run).updates)),
          (Machine.resume count run).records.toList⟩
      | some crash => ⟨(Machine.resume count run).machine, .error crash,
          (Machine.resume count run).records.toList⟩ := rfl
  have hcycles := cycles_apply count run hsound rfl
  rw [hframe] at hroom ⊢
  unfold frame
  rw [bind_done (look_apply _)]
  show (cycles count false >>= _).on machine.board = _
  cases hcrash : (Machine.resume count run).crash with
  | none =>
    rw [hcrash] at hcycles
    simp only [hcrash] at hroom ⊢
    exact bind_done (hcycles hroom)
  | some crash =>
    rw [hcrash] at hcycles
    simp only [hcrash] at hroom ⊢
    exact bind_refused (hcycles hroom)

end Work

/-! ## Host operations -/

namespace Machine

theorem Sound.after {machine : Machine} (hsound : machine.Sound) (operations : List Operation) :
    (machine.after operations).Sound := kept_sound.after hsound operations

theorem cycles_le_after (machine : Machine) (operations : List Operation) :
    machine.cycles ≤ (machine.after operations).cycles := by
  have hkept : Kept fun later => machine.cycles ≤ later.cycles := {
    cycle := fun later hlater => Nat.le_trans hlater (Work.cycles_le_cycle later)
    tick := fun _ hlater => hlater
    key := fun _ _ hlater => hlater
    speed := fun _ _ hlater => hlater }
  exact hkept.after (Nat.le_refl _) operations

/-- Whatever a host asks changes the board as it changes the machine, and gets the same reply. -/
theorem perform_board {machine : Machine} (hsound : machine.Sound) (operation : Operation)
    (hroom : (operation.apply machine).machine.cycles < 0x10000000000000000) :
    machine.board.perform operation =
      .ok ((operation.apply machine).reply, (operation.apply machine).machine.board) := by
  cases operation with
  | cycle =>
    rw [Board.perform, Work.cycle_apply hsound hroom]
    show _ = Except.ok (machine.cycle.toStep.reply, machine.cycle.machine.board)
    unfold Outcome.toStep
    cases machine.cycle.result <;> rfl
  | frame =>
    rw [Board.perform, Work.frame_apply hsound hroom]
    show _ = Except.ok (machine.frame.toStep.reply, machine.frame.machine.board)
    unfold Outcome.toStep
    cases machine.frame.result <;> rfl
  | tick | speed hertz => rfl
  | key number down =>
    have hkeypad : machine.board.keypad = machine.keypad := rfl
    rw [Board.perform, Operation.apply, setKey, hkeypad]
    cases machine.keypad.set number down <;> rfl

/-- A whole history changes the board as it changes the machine. -/
theorem run_board {machine : Machine} (hsound : machine.Sound) (operations : List Operation)
    (hroom : (machine.after operations).cycles < 0x10000000000000000) :
    machine.board.run operations =
      .ok (machine.replies operations, (machine.after operations).board) := by
  induction operations generalizing machine with
  | nil => rfl
  | cons operation rest ih =>
    -- cycles are never taken back, so the bound on all of them bounds those of the first operation
    have hnext : (operation.apply machine).machine.Sound := hsound.after [operation]
    have hfirst := Nat.lt_of_le_of_lt (cycles_le_after (operation.apply machine).machine rest) hroom
    rw [Board.run, perform_board hsound operation hfirst]
    show ((operation.apply machine).machine.board.run rest >>= _) = _
    rw [ih hnext hroom]
    rfl

end Machine
end Chip8
