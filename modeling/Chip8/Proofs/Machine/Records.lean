import Chip8.Proofs.Instruction.Template
import Chip8.Proofs.Machine.Calls
import Chip8.Proofs.Machine.Waiting

/-!
# What a machine tells the log

Every cycle tells at most three things: the instruction that it attempts, a turn of the work if the
instruction is one, and the fault that it meets.

* `Machine.traced`, `Machine.noted`, `Machine.warned` — the three things.
* `Machine.Turn` — the turns of the work; `mem_noted_iff` — they are what is noted.
* `Machine.Tells`, `tells` — what a cycle has to tell, and that it does.
* `Machine.records` — what is told during a history.
* `records_unroll` — a frame tells what its cycles tell.
* `Alternating` — records of waiting and of going on, in turn, that fit a status.
* `alternating_cycle`, `alternating_after` — one cycle and a history go on with them.
* `waits_are_told_in_turn` — all of this from a start on.
-/

namespace Chip8

/-- The records of a machine that starts to wait for a key, and of one that goes on. -/
def Log.Record.aboutKey : Log.Record → Bool
  | waiting | resumed _ => true
  | _ => false

namespace Machine

/-- The record of the instruction that the next cycle attempts, if it gets as far as one. -/
def traced (machine : Machine) : List Log.Record :=
  match machine.due with
  | none => []
  | some instruction => [.decoded machine.pc machine.word instruction]

/-- What the instruction that the next cycle attempts tells by itself. -/
def noted (machine : Machine) : List Log.Record :=
  match machine.due with
  | none => []
  | some instruction => machine.notes instruction

/-- The record of the fault that the next cycle meets, if it meets one. -/
def warned (machine : Machine) : List Log.Record :=
  match machine.cycle.result with
  | .ok _ => []
  | .error crash => [.crashed crash.address crash.fault]

/-- The turns of the work that the next cycle can bring, each with its record. -/
inductive Turn (machine : Machine) : Log.Record → Prop
  /-- A call of native code is passed over. -/
  | ignored {target : Address} :
      machine.due = some (.machineCall target) → Turn machine (.machineCallIgnored target)
  /-- The machine starts to wait for a key. -/
  | entered {x : Digit} : machine.due = some (.waitKey x) →
      machine.status ≠ .waitingForKeypress → machine.cycle.machine.status = .waitingForKeypress →
      Turn machine .waiting
  /-- The machine stops waiting, with the number of the key in the register. -/
  | left {x key : Digit} : machine.due = some (.waitKey x) →
      machine.status = .waitingForKeypress → machine.cycle.machine.status = .running →
      machine.cycle.machine.registers.get x = UInt8.ofNat key.val → Turn machine (.resumed key)

open Numeral in
/-- What the next cycle tells: first of the instruction that it attempts, if there is one, then of a
turn of the work, then of the fault that it meets, if it meets one. -/
structure Tells (machine : Machine) : Prop where
  records_eq : machine.cycle.records = machine.traced ++ machine.noted ++ machine.warned
  traced_of_due : ∀ instruction, machine.due = some instruction →
    ∃ record, machine.traced = [record] ∧ record.level = .trace ∧
      record.text = hex 3 machine.pc.toNat ++ ": " ++ String.ofList (hexDigits 4 machine.word.toNat)
        ++ " (" ++ instruction.name ++ ")"
  traced_of_not_due : machine.due = none → machine.traced = []
  length_noted_le : machine.noted.length ≤ 1
  mem_noted_iff : ∀ record, record ∈ machine.noted ↔ machine.Turn record
  level_noted : ∀ record ∈ machine.noted, record.level = .debug
  warned_of_error : ∀ crash, machine.cycle.result = .error crash →
    ∃ record, machine.warned = [record] ∧ record.level = .warn ∧
      record.text = "processor crashed at " ++ hex 3 crash.address.toNat ++ ": "
        ++ crash.fault.message
  warned_of_ok : ∀ updated, machine.cycle.result = .ok updated → machine.warned = []
  /-- A machine that has crashed tells nothing but that. -/
  records_of_crashed : machine.status = .crashed →
    machine.cycle.records = [.crashed machine.pc .halted]

/-! ## One cycle -/

section Cycle

variable {machine : Machine}

theorem noted_of_due {instruction : Instruction} (hdue : machine.due = some instruction) :
    machine.noted = machine.notes instruction := by
  unfold noted
  rw [hdue]

theorem noted_of_not_due (hdue : machine.due = none) : machine.noted = [] := by
  unfold noted
  rw [hdue]

theorem notes_beginCycle (instruction : Instruction) :
    machine.beginCycle.notes instruction = machine.notes instruction := by
  have hstatus : machine.beginCycle.status = .waitingForKeypress ↔
      machine.status = .waitingForKeypress := by
    cases hstatus : machine.status <;> simp [beginCycle, hstatus]
  cases instruction with
  | waitKey x =>
    simp only [notes, hstatus]
    rfl
  | _ => rfl

theorem notes_of_key {x key : Digit} (hkey : machine.keypad.firstPressed = some key) :
    machine.notes (.waitKey x) =
      if machine.status = .waitingForKeypress then [.resumed key] else [] := by
  simp only [notes, hkey]

theorem notes_of_no_key {x : Digit} (hkey : machine.keypad.firstPressed = none) :
    machine.notes (.waitKey x) =
      if machine.status = .waitingForKeypress then [] else [.waiting] := by
  simp only [notes, hkey]

/-- An instruction that is refused tells nothing by itself. -/
theorem notes_of_refusal {instruction : Instruction} {fault : Fault}
    (hrefused : machine.refusal instruction = some fault) : machine.notes instruction = [] := by
  cases instruction with
  | machineCall target | waitKey x => cases hrefused
  | _ => rfl

/-- A cycle tells of the instruction that it attempts, then what that tells by itself, then of its
fault. -/
theorem records_cycle (machine : Machine) :
    machine.cycle.records = machine.traced ++ machine.noted ++ machine.warned := by
  unfold traced noted warned due
  by_cases hcrashed : machine.status = .crashed
  · rw [cycle_of_crashed hcrashed, if_neg fun hready => hready.1 hcrashed]
    rfl
  by_cases hfetch : machine.Fetches
  · rw [cycle_of_fetches hcrashed hfetch, if_pos ⟨hcrashed, hfetch⟩]
    cases hread : Instruction.decode machine.word with
    | none =>
      unfold perform
      simp only [hread]
      rfl
    | some instruction =>
      cases hexecute : machine.beginCycle.execute instruction with
      | ok next =>
        rw [perform_eq_ok hread hexecute, notes_beginCycle]
        exact (List.append_nil _).symm
      | error fault =>
        have hrefused := (execute_eq_error_iff _ _ _).mp hexecute
        rw [refusal_beginCycle] at hrefused
        unfold perform
        simp only [hread, hexecute, notes_of_refusal hrefused]
        rfl
  · rw [cycle_of_not_fetches hcrashed hfetch, if_neg fun hready => hfetch hready.2]
    rfl

theorem length_noted_le (machine : Machine) : machine.noted.length ≤ 1 := by
  cases hdue : machine.due with
  | none =>
    rw [noted_of_not_due hdue]
    exact Nat.zero_le 1
  | some instruction =>
    rw [noted_of_due hdue]
    cases instruction with
    | machineCall target => exact Nat.le_refl 1
    | waitKey x =>
      unfold notes
      cases machine.keypad.firstPressed <;> simp only <;> split <;> simp
    | _ => exact Nat.zero_le 1

/-- A machine that waits stops waiting when a key is pressed. -/
theorem turn_of_key {x key : Digit} (hdue : machine.due = some (.waitKey x))
    (hwaiting : machine.status = .waitingForKeypress)
    (hkey : machine.keypad.firstPressed = some key) : machine.Turn (.resumed key) := by
  obtain ⟨-, ⟨other, hother, hnext⟩ | ⟨hnone, -⟩⟩ := cycle_of_waitKey hdue
  · obtain rfl := Option.some.inj (hkey.symm.trans hother)
    refine .left hdue hwaiting (by rw [hnext]) ?_
    rw [hnext]
    exact Registers.get_set_self ..
  · cases hkey.symm.trans hnone

/-- A machine that asks for a key starts to wait when none is pressed. -/
theorem turn_of_no_key {x : Digit} (hdue : machine.due = some (.waitKey x))
    (hbusy : machine.status ≠ .waitingForKeypress)
    (hkey : machine.keypad.firstPressed = none) : machine.Turn .waiting := by
  obtain ⟨-, ⟨other, hother, -⟩ | ⟨-, hnext⟩⟩ := cycle_of_waitKey hdue
  · cases hkey.symm.trans hother
  · exact .entered hdue hbusy (congrArg status hnext)

/-- What is noted is a turn of the work. -/
theorem turn_of_mem_noted {record : Log.Record} (hnoted : record ∈ machine.noted) :
    machine.Turn record := by
  cases hdue : machine.due with
  | none =>
    rw [noted_of_not_due hdue] at hnoted
    cases hnoted
  | some instruction =>
    rw [noted_of_due hdue] at hnoted
    cases instruction with
    | machineCall target =>
      obtain rfl := List.mem_singleton.mp hnoted
      exact .ignored hdue
    | waitKey x =>
      cases hkey : machine.keypad.firstPressed with
      | some key =>
        rw [notes_of_key hkey] at hnoted
        split at hnoted
        · next hwaiting =>
          obtain rfl := List.mem_singleton.mp hnoted
          exact turn_of_key hdue hwaiting hkey
        · cases hnoted
      | none =>
        rw [notes_of_no_key hkey] at hnoted
        split at hnoted
        · cases hnoted
        · next hbusy =>
          obtain rfl := List.mem_singleton.mp hnoted
          exact turn_of_no_key hdue hbusy hkey
    | _ => cases hnoted

/-- A turn of the work is noted. -/
theorem mem_noted_of_turn {record : Log.Record} (hturn : machine.Turn record) :
    record ∈ machine.noted := by
  cases hturn with
  | ignored hdue =>
    rw [noted_of_due hdue]
    exact List.mem_singleton_self _
  | entered hdue hbusy hafter =>
    obtain ⟨-, ⟨key, -, hnext⟩ | ⟨hkey, -⟩⟩ := cycle_of_waitKey hdue
    · rw [hnext] at hafter
      cases hafter
    · rw [noted_of_due hdue, notes_of_no_key hkey, if_neg hbusy]
      exact List.mem_singleton_self _
  | left hdue hwaiting hafter hstored =>
    obtain ⟨-, ⟨key, hkey, hnext⟩ | ⟨-, hnext⟩⟩ := cycle_of_waitKey hdue
    · -- the register tells which key it was
      rw [hnext] at hstored
      have hsame := congrArg Digit.low ((Registers.get_set_self ..).symm.trans hstored)
      rw [Digit.low_ofNat_val, Digit.low_ofNat_val] at hsame
      rw [noted_of_due hdue, notes_of_key hkey, if_pos hwaiting, hsame]
      exact List.mem_singleton_self _
    · rw [hnext] at hafter
      cases hafter

theorem mem_noted_iff {record : Log.Record} : record ∈ machine.noted ↔ machine.Turn record :=
  ⟨turn_of_mem_noted, mem_noted_of_turn⟩

/-- Nothing is noted besides a turn of the work. -/
theorem noted_of_turn {record : Log.Record} (hturn : machine.Turn record) :
    machine.noted = [record] := by
  obtain ⟨other, hother⟩ := List.length_eq_one_iff.mp
    (Nat.le_antisymm machine.length_noted_le (List.length_pos_of_mem (mem_noted_iff.mpr hturn)))
  have hmem := mem_noted_iff.mpr hturn
  rw [hother] at hmem ⊢
  rw [List.mem_singleton.mp hmem]

theorem level_of_turn {record : Log.Record} (hturn : machine.Turn record) :
    record.level = .debug := by
  cases hturn <;> rfl

/-- Every cycle tells what it has to. -/
theorem tells (machine : Machine) : machine.Tells where
  records_eq := records_cycle machine
  traced_of_due := by
    intro instruction hdue
    unfold traced
    rw [hdue]
    exact ⟨_, rfl, rfl, rfl⟩
  traced_of_not_due := by
    intro hdue
    unfold traced
    rw [hdue]
  length_noted_le := machine.length_noted_le
  mem_noted_iff := fun _ => mem_noted_iff
  level_noted := fun _ hnoted => level_of_turn (mem_noted_iff.mp hnoted)
  warned_of_error := by
    intro crash hcrash
    unfold warned
    rw [hcrash]
    exact ⟨_, rfl, rfl, rfl⟩
  warned_of_ok := by
    intro updated hdone
    unfold warned
    rw [hdone]
  records_of_crashed := by
    intro hcrashed
    rw [cycle_of_crashed hcrashed]
    rfl

/-! ## Waiting and going on -/

/-- Of what a cycle tells, only what it notes is about keys. -/
theorem keyed_cycle (machine : Machine) :
    machine.cycle.records.filter Log.Record.aboutKey =
      machine.noted.filter Log.Record.aboutKey := by
  have htraced : machine.traced.filter Log.Record.aboutKey = [] := by
    unfold traced
    split <;> rfl
  have hwarned : machine.warned.filter Log.Record.aboutKey = [] := by
    unfold warned
    split <;> rfl
  rw [records_cycle, List.filter_append, List.filter_append, htraced, hwarned, List.nil_append,
    List.append_nil]

/-- A machine that is found waiting after a cycle has carried out the instruction that asks for a
key, unless it waited before. -/
theorem due_of_entered (hbefore : machine.status ≠ .waitingForKeypress)
    (hafter : machine.cycle.machine.status = .waitingForKeypress) :
    ∃ x, machine.due = some (.waitKey x) := by
  obtain ⟨instruction, hdue, heffect, -⟩ | ⟨crash, -, hsame | hsame⟩ := cycle_effect machine
  · obtain ⟨x, rfl, -⟩ | ⟨-, hsame⟩ := status_of_execute (execute_eq_ok_iff.mpr heffect)
    · exact ⟨x, hdue⟩
    · rw [hafter] at hsame
      cases hstatus : machine.status <;> simp [beginCycle, hstatus] at hsame hbefore
  · rw [hsame] at hafter
    cases hafter
  · rw [hsame] at hafter
    cases hafter

theorem noted_of_same (hsame : machine.cycle.machine.status = .waitingForKeypress ↔
      machine.status = .waitingForKeypress) :
    machine.noted.filter Log.Record.aboutKey = [] := by
  refine List.filter_eq_nil_iff.mpr fun record hnoted => ?_
  cases mem_noted_iff.mp hnoted with
  | ignored hdue => exact Bool.false_ne_true
  | entered hdue hbefore hafter => exact absurd (hsame.mp hafter) hbefore
  | left hdue hbefore hafter hstored => cases (hsame.mpr hbefore).symm.trans hafter

/-- A cycle tells about a key exactly if the machine starts or stops waiting. -/
theorem keyed_cycle_cases (hreach : machine.Reachable) :
    let keyed := machine.cycle.records.filter Log.Record.aboutKey
    let before := machine.status = .waitingForKeypress
    let after := machine.cycle.machine.status = .waitingForKeypress
    (keyed = [] ∧ (after ↔ before)) ∨
      ∃ record, keyed = [record] ∧ (record = .waiting ↔ ¬ before) ∧ (after ↔ ¬ before) := by
  intro keyed before after
  have hkeyed : keyed = machine.noted.filter Log.Record.aboutKey := keyed_cycle machine
  rw [hkeyed]
  -- what has to be told is a change, so the cases are those of the status before and after
  by_cases hsame : after ↔ before
  · exact .inl ⟨noted_of_same hsame, hsame⟩
  have hflip : after ↔ ¬ before := by
    constructor
    · intro hafter hbefore
      exact hsame (iff_of_true hafter hbefore)
    · intro hbefore
      exact Decidable.byContradiction fun hafter => hsame (iff_of_false hafter hbefore)
  right
  by_cases hbefore : before
  · obtain ⟨x, hwaits⟩ := hreach.waits hbefore
    obtain ⟨-, ⟨key, hkey, -⟩ | ⟨-, hnext⟩⟩ := cycle_of_waitKey hwaits.due
    · rw [noted_of_turn (turn_of_key hwaits.due hbefore hkey)]
      exact ⟨_, rfl, iff_of_false nofun (not_not_intro hbefore), hflip⟩
    · have hafter : after := congrArg status hnext
      exact absurd hbefore (hflip.mp hafter)
  · have hafter := hflip.mpr hbefore
    obtain ⟨x, hdue⟩ := due_of_entered hbefore hafter
    rw [noted_of_turn (.entered hdue hbefore hafter)]
    exact ⟨.waiting, rfl, iff_of_true rfl hbefore, hflip⟩

end Cycle

/-! ## Histories -/

/-- What is told during a history, oldest first. -/
def records (machine : Machine) : List Operation → List Log.Record
  | [] => []
  | operation :: rest =>
      (operation.apply machine).records ++ (operation.apply machine).machine.records rest

theorem records_append (machine : Machine) (early late : List Operation) :
    machine.records (early ++ late) =
      machine.records early ++ (machine.after early).records late := by
  induction early generalizing machine with
  | nil => rfl
  | cons operation rest ih =>
    rw [List.cons_append, records, ih, records, List.append_assoc]
    rfl

/-- A run tells what its cycles tell. -/
theorem records_frameSteps (count : Nat) (run : Run) :
    (resume count run).records.toList =
      run.records.toList ++ run.machine.records (run.machine.frameSteps count) := by
  induction count generalizing run with
  | zero => exact (List.append_nil _).symm
  | succ count ih =>
    cases hresult : run.machine.cycle.result with
    | ok updated =>
      rw [resume_of_ok count hresult, frameSteps_of_ok count hresult, ih]
      simp only [Run.next, Array.toList_appendList, List.append_assoc]
      rfl
    | error crash =>
      rw [resume_of_error count hresult, frameSteps_of_error count hresult]
      simp only [Run.stop, Array.toList_appendList]
      exact congrArg (run.records.toList ++ ·) (List.append_nil _).symm

theorem records_steps (machine : Machine) (operation : Operation) :
    machine.records (machine.steps operation) = (operation.apply machine).records := by
  cases operation with
  | frame =>
    have hrun := records_frameSteps machine.cyclesPerFrame.toNat ⟨machine, 0, 0, none, #[]⟩
    refine hrun.symm.trans ?_
    show _ = machine.frame.records
    unfold frame run
    simp only
    split <;> rfl
  | _ => exact List.append_nil _

theorem records_unroll (machine : Machine) (operations : List Operation) :
    machine.records (machine.unroll operations) = machine.records operations := by
  induction operations generalizing machine with
  | nil => rfl
  | cons operation rest ih =>
    rw [unroll, records_append, records_steps, after_steps, ih]
    rfl

/-- The records about keys so far: waiting and going on in turn, first waiting; the machine waits
if it is its turn to go on. -/
structure Alternating (status : Status) (keyed : List Log.Record) : Prop where
  place_even : ∀ (place : Nat) (record : Log.Record), keyed[place]? = some record →
    (record = .waiting ↔ place % 2 = 0)
  waits_iff : status = .waitingForKeypress ↔ keyed.length % 2 = 1

theorem alternating_nil {status : Status} (hstatus : status ≠ .waitingForKeypress) :
    Alternating status [] where
  place_even := nofun
  waits_iff := iff_of_false hstatus (by decide)

section Alternating

variable {status : Status} {keyed : List Log.Record}

theorem Alternating.concat {next : Status} {record : Log.Record} (halt : Alternating status keyed)
    (hrecord : record = .waiting ↔ status ≠ .waitingForKeypress)
    (hnext : next = .waitingForKeypress ↔ status ≠ .waitingForKeypress) :
    Alternating next (keyed ++ [record]) := by
  have hwaits := halt.waits_iff
  constructor
  · intro place other hother
    rw [List.getElem?_append] at hother
    split at hother
    · exact halt.place_even place other hother
    · next hplace =>
      obtain ⟨hlast, rfl⟩ : place - keyed.length = 0 ∧ record = other := by
        simpa [List.getElem?_singleton] using hother
      rw [hrecord, Ne, hwaits]
      omega
  · rw [hnext, Ne, hwaits, List.length_append, List.length_singleton]
    omega

theorem Alternating.getLast?_iff (halt : Alternating status keyed) :
    status = .waitingForKeypress ↔ keyed.getLast? = some .waiting := by
  rw [halt.waits_iff, List.getLast?_eq_getElem?]
  cases hlast : keyed[keyed.length - 1]? with
  | none =>
    have hnone := List.getElem?_eq_none_iff.mp hlast
    refine iff_of_false ?_ nofun
    omega
  | some record =>
    have hlength := (List.getElem?_eq_some_iff.mp hlast).1
    rw [Option.some.injEq, halt.place_even _ record hlast]
    omega

end Alternating

section History

variable {machine : Machine} {keyed : List Log.Record}

theorem alternating_cycle (hreach : machine.Reachable)
    (halt : Alternating machine.status keyed) :
    Alternating machine.cycle.machine.status
      (keyed ++ machine.cycle.records.filter Log.Record.aboutKey) := by
  obtain ⟨hnone, hsame⟩ | ⟨record, hone, hrecord, hafter⟩ := keyed_cycle_cases hreach
  · rw [hnone, List.append_nil]
    exact ⟨halt.place_even, hsame.trans halt.waits_iff⟩
  · rw [hone]
    exact halt.concat hrecord hafter

theorem records_of_not_works {operation : Operation} (hworks : operation.works = false) :
    (operation.apply machine).records = [] := by
  cases operation with
  | cycle | frame => cases hworks
  | tick | speed => rfl
  | key number down =>
    simp only [Operation.apply]
    cases machine.setKey number down <;> rfl

theorem alternating_apply (hreach : machine.Reachable) (halt : Alternating machine.status keyed)
    {operation : Operation} (hframe : operation ≠ .frame) :
    Alternating (operation.apply machine).machine.status
      (keyed ++ (operation.apply machine).records.filter Log.Record.aboutKey) := by
  cases hworks : operation.works with
  | false =>
    rw [records_of_not_works hworks, apply_of_not_works machine hworks, List.filter_nil,
      List.append_nil]
    exact halt
  | true =>
    cases operation with
    | cycle => exact alternating_cycle hreach halt
    | frame => exact absurd rfl hframe
    | _ => cases hworks

theorem alternating_after {history : List Operation} (hreach : machine.Reachable)
    (halt : Alternating machine.status keyed) (hframe : .frame ∉ history) :
    Alternating (machine.after history).status
      (keyed ++ (machine.records history).filter Log.Record.aboutKey) := by
  -- along the history: what has been told so far grows with every operation
  induction history generalizing machine keyed with
  | nil =>
    rw [records, List.filter_nil, List.append_nil]
    exact halt
  | cons operation rest ih =>
    rw [List.mem_cons, not_or] at hframe
    rw [records, List.filter_append, ← List.append_assoc]
    exact ih (hreach.after [operation]) (alternating_apply hreach halt (Ne.symm hframe.1)) hframe.2

end History

theorem text_resumed (key : Digit) : (Log.Record.resumed key).text =
    "key " ++ String.ofList [key.letter] ++ " pressed, resuming" := by
  have hdigit := Numeral.hexDigits_one key.isLt
  rw [Digit.ofNat_val] at hdigit
  rw [← hdigit]
  rfl

theorem eq_resumed_of_aboutKey {record : Log.Record} (habout : record.aboutKey = true)
    (hother : record ≠ .waiting) : ∃ key, record = .resumed key := by
  cases record with
  | resumed key => exact ⟨key, rfl⟩
  | waiting => exact absurd rfl hother
  | _ => cases habout

/-- A start tells nothing about keys. -/
theorem keyed_boot (program : Program) (settings : Settings) (hostKey : Keystream.Key) :
    (boot program settings hostKey).records.filter Log.Record.aboutKey = [] := by
  unfold boot
  simp only
  split
  · rfl
  · split <;> rfl

/-- From a start on, a machine tells that it waits for a key and that it goes on with one in turn,
and it waits exactly if the former was last.  Every cycle, by itself or in a frame, tells of the
instruction that it attempts, then of such a turn or of native code that it passes over, then of
its fault; on a machine that has crashed, only of that. -/
theorem waits_are_told_in_turn {program : Program} {settings : Settings}
    {hostKey : Keystream.Key} {start : Machine}
    (hboot : (boot program settings hostKey).result = .ok start) (operations : List Operation) :
    let told := (boot program settings hostKey).records ++ start.records operations
    let keyed := told.filter Log.Record.aboutKey
    let history := start.unroll operations
    (∀ (place : Nat) (record : Log.Record), keyed[place]? = some record →
      (place % 2 = 0 ∧ record = .waiting ∧ record.text = "waiting for keypress") ∨
        (place % 2 = 1 ∧ ∃ key : Digit, record = .resumed key ∧
          record.text = "key " ++ String.ofList [key.letter] ++ " pressed, resuming")) ∧
      ((start.after operations).status = .waitingForKeypress ↔
        keyed.getLast? = some .waiting) ∧
      (.frame ∉ history ∧ start.after history = start.after operations ∧
        start.records history = start.records operations) ∧
      ∀ length : Nat, history[length]? = some .cycle → (start.stage history length).Tells := by
  intro told keyed history
  have hframe := frame_notMem_unroll start operations
  have hafter := after_unroll start operations
  have hrecords := records_unroll start operations
  have hstatus : start.status ≠ .waitingForKeypress := by
    obtain ⟨-, -, -, rfl⟩ := boot_eq_ok_iff.mp hboot
    exact nofun
  have halt : Alternating (start.after operations).status keyed := by
    have hreach : start.Reachable := ⟨program, settings, hostKey, start, [], hboot, rfl⟩
    have halt := alternating_after hreach (alternating_nil hstatus) hframe
    rw [hafter, hrecords, ← keyed_boot program settings hostKey, ← List.filter_append] at halt
    exact halt
  have habout : ∀ record ∈ keyed, record.aboutKey = true :=
    fun record hrecord => (List.mem_filter.mp hrecord).2
  clear_value keyed
  refine ⟨fun place record hrecord => ?_, halt.getLast?_iff, ⟨hframe, hafter, hrecords⟩,
    fun length _ => tells _⟩
  have hplace := halt.place_even place record hrecord
  by_cases hwaiting : record = .waiting
  · refine .inl ⟨hplace.mp hwaiting, hwaiting, ?_⟩
    rw [hwaiting]
    rfl
  · have hodd : place % 2 ≠ 0 := mt hplace.mpr hwaiting
    obtain ⟨key, rfl⟩ := eq_resumed_of_aboutKey (habout record (List.mem_of_getElem? hrecord)) hwaiting
    exact .inr ⟨by omega, key, rfl, text_resumed key⟩

/-- A frame of polling is told once.  A key that is still held answers the next instruction that
asks, without a record, and the one after that waits again. -/
theorem waits_are_told_in_turn_key_held :
    let program : Program := ⟨[0xF0, 0x0A, 0xF1, 0x0A, 0xF2, 0x0A]⟩
    let settings : Settings := { speed := 120 }
    let start := loaded program settings (.ofSeed 0)
    let operations : List Operation :=
      [.frame, .cycle, .key 3 true, .cycle, .cycle, .key 3 false, .cycle]
    let keyed := ((boot program settings (.ofSeed 0)).records ++ start.records operations).filter
      Log.Record.aboutKey
    let history := start.unroll operations
    (boot program settings (.ofSeed 0)).result = .ok start ∧
      keyed = [.waiting, .resumed (.ofNat 3), .waiting] ∧
      (start.after operations).status = .waitingForKeypress ∧
      (history[5]? = some .cycle ∧ (start.stage history 5).Tells ∧
        (start.stage history 5).noted = [.resumed (.ofNat 3)]) := by
  intro program settings start operations keyed history
  have hboot : (boot program settings (.ofSeed 0)).result = .ok start :=
    boot_eq_ok_iff.mpr ⟨by decide, by decide, by decide, rfl⟩
  obtain ⟨hkeyed, hcycle, hnoted⟩ : keyed = [.waiting, .resumed (.ofNat 3), .waiting] ∧
      history[5]? = some .cycle ∧
      (start.stage history 5).noted = [.resumed (.ofNat 3)] := by
    decide +kernel
  obtain ⟨-, hstatus, -, htells⟩ := waits_are_told_in_turn hboot operations
  exact ⟨hboot, hkeyed, hstatus.mpr (congrArg List.getLast? hkeyed), hcycle, htells 5 hcycle,
    hnoted⟩

end Machine
end Chip8
