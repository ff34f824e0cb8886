import Chip8.InPlace.Cycle

/-!
# What the steps on a board come to

Each step is compared with the operation on values that it stands for.  A step on the board of a
machine within its ranges is exact; the stack is the only part for which a range has to be supposed.

* `Work.bind_apply` — work after work, as an equation.
* `Work.goBy` — how work ends that goes by the result of an operation; `Work.ofExcept` if it leaves
  the board alone.
* `push_apply`, `pop_apply`, `readRange_apply`, `readWord_apply`, `writeRange_apply` — stack and
  memory.
* `register_apply`, `setRegister_apply`, `firstPressed_apply` — registers and keys.
-/

namespace Chip8
namespace Work

variable {ε α β γ : Type}

/-! ## Work after work -/

theorem bind_apply (work : Work ε α) (next : α → Work ε β) (board : Board) :
    (work >>= next).on board =
      match work.on board with
      | (.done value, later) => (next value).on later
      | (.refused cause, later) => (.refused cause, later)
      | (.slipped slip, later) => (.slipped slip, later) := rfl

theorem bind_done {work : Work ε α} {next : α → Work ε β} {board later : Board} {value : α}
    (hwork : work.on board = (.done value, later)) :
    (work >>= next).on board = (next value).on later := by
  rw [bind_apply, hwork]

theorem bind_refused {work : Work ε α} {next : α → Work ε β} {board later : Board} {cause : ε}
    (hwork : work.on board = (.refused cause, later)) :
    (work >>= next).on board = (.refused cause, later) := by
  rw [bind_apply, hwork]

theorem bind_slipped {work : Work ε α} {next : α → Work ε β} {board later : Board} {slip : Slip}
    (hwork : work.on board = (.slipped slip, later)) :
    (work >>= next).on board = (.slipped slip, later) := by
  rw [bind_apply, hwork]

/-- Work that is refused was refused at first, or was done at first and refused afterwards. -/
theorem refused_of_bind {work : Work ε α} {next : α → Work ε β} {board later : Board} {cause : ε}
    (hrefused : (work >>= next).on board = (.refused cause, later)) :
    work.on board = (.refused cause, later) ∨
      ∃ value middle, work.on board = (.done value, middle) ∧
        (next value).on middle = (.refused cause, later) := by
  rw [bind_apply] at hrefused
  rcases hwork : work.on board with ⟨value | other | slip, middle⟩
  · rw [hwork] at hrefused
    exact .inr ⟨value, middle, rfl, hrefused⟩
  · rw [hwork] at hrefused
    cases hrefused
    exact .inl rfl
  · rw [hwork] at hrefused
    cases hrefused

/-- How work ends that goes by the result of an operation: value and board are made of what was
found, and a refusal leaves the board alone. -/
def goBy (result : Except ε γ) (value : γ → α) (change : γ → Board) (board : Board) :
    Ending ε α × Board :=
  match result with
  | .ok found => (.done (value found), change found)
  | .error cause => (.refused cause, board)

/-- How work ends that gives the result of an operation and leaves the board alone. -/
abbrev ofExcept (result : Except ε α) (board : Board) : Ending ε α × Board :=
  goBy result id (fun _ => board) board

theorem bind_goBy {work : Work ε α} {next : α → Work ε β} {result : Except ε γ} {value : γ → α}
    {change : γ → Board} {board : Board} : work.on board = goBy result value change board →
      (work >>= next).on board =
        match result with
        | .ok found => (next (value found)).on (change found)
        | .error cause => (.refused cause, board) := by
  intro hwork
  cases result with
  | ok found => exact bind_done hwork
  | error cause => exact bind_refused hwork

/-! ## Single steps -/

theorem pure_apply (value : α) (board : Board) :
    (pure value : Work ε α).on board = (.done value, board) := rfl

theorem look_apply (board : Board) : (look : Work ε Board).on board = (.done board, board) := rfl

theorem alter_apply (change : Board → Board) (board : Board) :
    (alter change : Work ε Unit).on board = (.done (), change board) := rfl

theorem leap_apply (address : UInt16) (board : Board) :
    (leap address : Work ε Unit).on board = (.done (), { board with pc := address }) := rfl

theorem demand_apply {condition : Prop} [Decidable condition] (hcondition : condition)
    (slip : Slip) (board : Board) :
    (demand condition slip : Work ε Unit).on board = (.done (), board) := if_pos hcondition

theorem demand_apply_of_not {condition : Prop} [Decidable condition] (hcondition : ¬ condition)
    (slip : Slip) (board : Board) :
    (demand condition slip : Work ε Unit).on board = (.slipped slip, board) := if_neg hcondition

theorem allow_apply {condition : Prop} [Decidable condition] (hcondition : condition) (cause : ε)
    (board : Board) : (allow condition cause).on board = (.done (), board) := if_pos hcondition

theorem allow_apply_of_not {condition : Prop} [Decidable condition] (hcondition : ¬ condition)
    (cause : ε) (board : Board) : (allow condition cause).on board = (.refused cause, board) :=
  if_neg hcondition

theorem entry_apply {found : Option α} {value : α} (hfound : found = some value) (board : Board) :
    (entry found : Work ε α).on board = (.done value, board) := by
  rw [hfound]
  rfl

/-! ## Exact sums -/

theorem sum_apply {first second : UInt16} (hsum : first.toNat + second.toNat < 0x10000)
    (board : Board) :
    (sum first second : Work ε UInt16).on board = (.done (first + second), board) :=
  bind_done (demand_apply hsum _ _)

theorem difference_apply {first second : UInt16} (hle : second.toNat ≤ first.toNat)
    (board : Board) :
    (difference first second : Work ε UInt16).on board = (.done (first - second), board) :=
  bind_done (demand_apply hle _ _)

theorem narrow_apply {number : Nat} (hnumber : number < 0x10000) (board : Board) :
    (narrow number : Work ε UInt16).on board = (.done (UInt16.ofNat number), board) :=
  bind_done (demand_apply hnumber _ _)

theorem advance_apply {board : Board} (hpc : board.pc.toNat + 2 < 0x10000) :
    (advance : Work ε Unit).on board = (.done (), { board with pc := board.pc + 2 }) := by
  have hsum : board.pc.toNat + (2 : UInt16).toNat < 0x10000 := hpc
  unfold advance
  rw [bind_done (look_apply board), bind_done (sum_apply hsum board), leap_apply]

theorem retreat_apply {board : Board} (hpc : 2 ≤ board.pc.toNat) :
    (retreat : Work ε Unit).on board = (.done (), { board with pc := board.pc - 2 }) := by
  have hdifference : (2 : UInt16).toNat ≤ board.pc.toNat := hpc
  unfold retreat
  rw [bind_done (look_apply board), bind_done (difference_apply hdifference board), leap_apply]

/-! ## The stack -/

theorem push_apply (address : UInt16) (board : Board) :
    (push address).on board =
      goBy (board.stack.push address) (fun _ => ()) (fun stack => { board with stack }) board := by
  unfold push CallStack.push
  rw [bind_done (look_apply board)]
  by_cases hroom : board.stack.pointer < stackSize
  · rw [if_pos hroom, bind_done (allow_apply hroom _ _), bind_done (demand_apply hroom _ _),
      bind_done (alter_apply _ _), alter_apply]
    rfl
  · rw [if_neg hroom, bind_refused (allow_apply_of_not hroom _ _)]
    rfl

theorem pop_apply {board : Board} (hdepth : board.stack.pointer ≤ stackSize) :
    pop.on board =
      goBy board.stack.pop Prod.fst (fun popped => { board with stack := popped.2 }) board := by
  unfold pop CallStack.pop
  rw [bind_done (look_apply board)]
  by_cases hempty : board.stack.pointer = 0
  · rw [if_pos hempty, bind_refused (allow_apply_of_not (not_not_intro hempty) _ _)]
    rfl
  · have hinside : board.stack.pointer - 1 < stackSize := by omega
    rw [if_neg hempty, bind_done (allow_apply hempty _ _), bind_done (alter_apply _ _),
      bind_done (look_apply _)]
    refine entry_apply ?_ _
    rw [Vector.getElem?_eq_getElem hinside]
    rfl

/-! ## Memory -/

theorem range_apply (start length : Nat) (board : Board) :
    (range start length).on board = ofExcept (Memory.checkRange start length) board := by
  unfold range Memory.checkRange
  by_cases hinside : start + length ≤ memorySize
  · have hstart : start ≤ memorySize := Nat.le_trans (Nat.le_add_right _ _) hinside
    rw [if_pos hinside, bind_done (allow_apply ⟨hinside, hstart⟩ _ _),
      demand_apply ⟨Nat.le_add_right _ _, hinside⟩]
    rfl
  · rw [if_neg hinside, bind_refused (allow_apply_of_not (fun h => hinside h.1) _ _)]
    rfl

theorem readRange_apply (start length : Nat) (board : Board) :
    (readRange start length).on board = ofExcept (board.memory.read start length) board := by
  unfold readRange Memory.read
  rw [bind_goBy (range_apply start length board)]
  cases Memory.checkRange start length with
  | ok inside => rfl
  | error fault => rfl

theorem readWord_apply (start : Nat) (board : Board) :
    (readWord start).on board = ofExcept (board.memory.readWord start) board := by
  unfold readWord
  rw [bind_goBy (readRange_apply start 2 board), Memory.read_eq, Memory.readWord_eq]
  by_cases hinside : start + 2 ≤ memorySize
  · rw [if_pos hinside, if_pos hinside]
    -- a range of two bytes has a first and a second
    have hhigh : (board.memory.slice start 2)[0]? = some (board.memory.byte start) := rfl
    have hlow : (board.memory.slice start 2)[1]? = some (board.memory.byte (start + 1)) := rfl
    show (entry (board.memory.slice start 2)[0]? >>= fun high =>
      entry (board.memory.slice start 2)[1]? >>= fun low => _).on board = _
    rw [bind_done (entry_apply hhigh board), bind_done (entry_apply hlow board)]
    rfl
  · rw [if_neg hinside, if_neg hinside]
    rfl

theorem writeRange_apply (start : Nat) (bytes : List UInt8) (board : Board) :
    (writeRange start bytes).on board =
      goBy (board.memory.write start bytes) (fun _ => ()) (fun memory => { board with memory })
        board := by
  unfold writeRange Memory.write
  rw [bind_goBy (range_apply start bytes.length board)]
  cases Memory.checkRange start bytes.length with
  | ok inside => rfl
  | error fault => rfl

/-! ## Registers and keys -/

theorem register_apply (x : Digit) (board : Board) :
    (register x.val : Work ε UInt8).on board = (.done (board.registers.get x), board) := by
  unfold register
  rw [bind_done (look_apply board)]
  refine entry_apply ?_ board
  rw [Registers.get, Vector.getElem?_eq_getElem x.isLt]
  rfl

theorem setRegister_apply (x : Digit) (value : UInt8) (board : Board) :
    (setRegister x.val value : Work ε Unit).on board =
      (.done (), { board with registers := board.registers.set x value }) :=
  bind_done (demand_apply x.isLt _ _)

theorem registersUpTo_apply (x : Digit) (board : Board) :
    (registersUpTo x.val : Work ε (List UInt8)).on board =
      (.done (board.registers.upTo x), board) := by
  have hinside : x.val + 1 ≤ 16 := x.isLt
  unfold registersUpTo
  rw [bind_done (demand_apply hinside _ _), bind_done (look_apply board)]
  rfl

theorem loadRegisters_apply {x : Digit} {bytes : List UInt8} (hlength : x.val + 1 = bytes.length)
    (board : Board) :
    (loadRegisters x.val bytes : Work ε Unit).on board =
      (.done (), { board with registers := board.registers.load bytes }) := by
  have hinside : x.val + 1 ≤ 16 := x.isLt
  unfold loadRegisters
  rw [bind_done (demand_apply hinside _ _), bind_done (demand_apply hlength _ _)]
  rfl

theorem key_apply (number : Digit) (board : Board) :
    (key number.val : Work ε Bool).on board = (.done (board.keypad.isPressed number), board) := by
  unfold key
  rw [bind_done (look_apply board)]
  refine entry_apply ?_ board
  rw [Keypad.isPressed, Vector.getElem?_eq_getElem number.isLt]
  rfl

theorem firstPressed_map_apply (numbers : List Digit) (board : Board) :
    (firstPressed (numbers.map Fin.val) : Work ε (Option Nat)).on board =
      (.done ((numbers.find? board.keypad.isPressed).map Fin.val), board) := by
  induction numbers with
  | nil => rfl
  | cons number rest ih =>
    rw [List.map_cons, firstPressed, bind_done (key_apply number board), List.find?_cons]
    cases board.keypad.isPressed number with
    | true => rfl
    | false => exact ih

theorem firstPressed_apply (board : Board) :
    (firstPressed (List.range 16) : Work ε (Option Nat)).on board =
      (.done (board.keypad.firstPressed.map Fin.val), board) :=
  firstPressed_map_apply (List.finRange 16) board

theorem holds_apply (condition : Condition) (machine : Machine) :
    (holds condition : Work ε Bool).on machine.board =
      (.done (machine.holds condition), machine.board) := by
  cases condition with
  | isByte x nn | isNotByte x nn =>
    exact bind_done (register_apply x _)
  | same x y | different x y =>
    unfold holds
    rw [bind_done (register_apply x _), bind_done (register_apply y _)]
    rfl
  | keyDown x =>
    unfold holds
    rw [bind_done (register_apply x _)]
    exact key_apply (.low (machine.registers.get x)) _
  | keyUp x =>
    unfold holds
    rw [bind_done (register_apply x _)]
    exact bind_done (key_apply (.low (machine.registers.get x)) _)

theorem setCombined_apply (op : Combine) (x y : Digit) (board : Board) :
    (setCombined x.val (op.apply board.dialect (board.registers.get x) (board.registers.get y)) :
      Work ε Unit).on board =
      (.done (), { board with registers := board.registers.combine board.dialect op x y }) := by
  unfold setCombined Registers.combine
  rw [bind_done (setRegister_apply x _ board)]
  rcases op.apply board.dialect (board.registers.get x) (board.registers.get y) with
    ⟨value, _ | flagValue⟩
  · rfl
  · exact setRegister_apply Registers.flag flagValue _

/-- The index register is moved past a block, which is never longer than the registers. -/
theorem passBlock_apply (x : Digit) (board : Board) :
    (passBlock x.val : Work ε Unit).on board =
      (.done (), { board with
        index := if board.dialect.blockMovesIndex then board.index + UInt16.ofNat (x.val + 1)
          else board.index }) := by
  unfold passBlock
  rw [bind_done (look_apply board)]
  cases board.dialect.blockMovesIndex with
  | false => rfl
  | true =>
    have hnumber : x.val < 0x10000 := by omega
    have hsum : (UInt16.ofNat x.val).toNat + (1 : UInt16).toNat < 0x10000 := by
      rw [UInt16.toNat_ofNat', Nat.mod_eq_of_lt hnumber]
      show x.val + 1 < 0x10000
      omega
    have hlength : UInt16.ofNat x.val + 1 = UInt16.ofNat (x.val + 1) :=
      (UInt16.ofNat_add x.val 1).symm
    rw [if_pos rfl, bind_done (narrow_apply hnumber board), bind_done (sum_apply hsum board),
      hlength]
    rfl

/-! ## The parts of a cycle -/

theorem crash_apply (word : Option UInt16) (fault : Fault) (board : Board) :
    (crash word fault : Work Crash α).on board =
      (.refused ⟨⟨fault, board.pc, word⟩, { board with status := .crashed }.snapshot⟩,
        { board with status := .crashed }) := rfl

theorem wake_apply_of_crashed {board : Board} (hcrashed : board.status = .crashed) :
    wake.on board = (.refused ⟨⟨.halted, board.pc, none⟩, board.snapshot⟩, board) := by
  have hsame : { board with status := .crashed } = board := hcrashed ▸ rfl
  unfold wake
  rw [bind_done (look_apply board), hcrashed]
  show (crash none .halted : Work Crash Unit).on board = _
  rw [crash_apply, hsame]

theorem cycle_refused_of_crashed {board : Board} (hcrashed : board.status = .crashed) :
    cycle.on board = (.refused ⟨⟨.halted, board.pc, none⟩, board.snapshot⟩, board) :=
  bind_refused (wake_apply_of_crashed hcrashed)

theorem wake_apply {board : Board} (hlive : board.status ≠ .crashed) :
    wake.on board = (.done (), { board with
      status := if board.status = .programLoaded then .running else board.status }) := by
  unfold wake
  rw [bind_done (look_apply board)]
  cases hstatus : board.status with
  | programLoaded => rfl
  | running | waitingForKeypress =>
    show (Ending.done (), board) = _
    rw [if_neg nofun, ← hstatus]
  | crashed => exact absurd hstatus hlive

theorem count_apply {board : Board} (hroom : board.cycles + 1 < 0x10000000000000000) :
    count.on board = (.done (), { board with cycles := board.cycles + 1 }) := by
  unfold count
  rw [bind_done (look_apply board), bind_done (demand_apply hroom _ _), alter_apply]

theorem attempt_apply (work : Work Fault α) (rescue : Fault → Work Crash α) (board : Board) :
    (attempt work rescue).on board =
      match work.on board with
      | (.done value, later) => (.done value, later)
      | (.refused fault, later) => (rescue fault).on later
      | (.slipped slip, later) => (.slipped slip, later) := rfl

theorem attempt_done {work : Work Fault α} {rescue : Fault → Work Crash α} {board later : Board}
    {value : α} (hwork : work.on board = (.done value, later)) :
    (attempt work rescue).on board = (.done value, later) := by
  rw [attempt_apply, hwork]

theorem attempt_refused {work : Work Fault α} {rescue : Fault → Work Crash α} {board later : Board}
    {fault : Fault} (hwork : work.on board = (.refused fault, later)) :
    (attempt work rescue).on board = (rescue fault).on later := by
  rw [attempt_apply, hwork]

end Work
end Chip8
