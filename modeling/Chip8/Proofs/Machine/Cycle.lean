import Chip8.Machine.Cycle
import Chip8.Proofs.Instruction.Number
import Chip8.Proofs.Machine.Execute

/-!
# What one cycle comes to

A cycle on a machine that has not crashed is told by three questions: can a word be fetched, can it
be read, and is the instruction refused.

* `Machine.word`, `Machine.Fetches` — the word at the program counter, and whether it can be
  fetched.
* `Machine.due` — the instruction that the next cycle attempts, if it gets as far as one.
* `Machine.fault?` — the fault of the next cycle, if it meets one.
* `cycle_of_fault`, `cycle_of_done` — the whole outcome in either case.
* `cycle_cases` — every cycle is refused on a crashed machine, meets a fault, or succeeds.
* `cycle_effect`, `effect_of_due`, `effect_of_ok` — a cycle has the effect of the instruction that is
  due, or fails; it has the effect if the instruction is not refused, and if it succeeds.
* `cycle_of_waitKey` — what a cycle that asks for a key comes to.
* `cycles_cycle` — every cycle is counted unless the machine has crashed before.
* `crash_of_crashed`, `crash_of_cycle`, `wreck_of_error` — what a crash tells, and the machine that
  it leaves.
-/

namespace Chip8
namespace Machine

/-- The word at the program counter. -/
def word (machine : Machine) : UInt16 :=
  machine.memory.word machine.pc.toNat

/-- A word fits between the program counter and the end of memory. -/
def Fetches (machine : Machine) : Prop :=
  machine.pc.toNat + 2 ≤ memorySize

instance (machine : Machine) : Decidable machine.Fetches :=
  inferInstanceAs (Decidable (_ ≤ _))

/-- The word that the next cycle fetches, if it can. -/
def fetched (machine : Machine) : Option UInt16 :=
  if machine.Fetches then some machine.word else none

@[simp] theorem fetches_beginCycle (machine : Machine) :
    machine.beginCycle.Fetches ↔ machine.Fetches := Iff.rfl

theorem halt_of_crashed {machine : Machine} (hcrashed : machine.status = .crashed) :
    machine.halt = machine := by
  rw [halt, ← hcrashed]

/-- The instruction that the next cycle attempts, if it gets as far as one. -/
def due (machine : Machine) : Option Instruction :=
  if machine.status ≠ .crashed ∧ machine.Fetches then Instruction.decode machine.word else none

theorem due_eq_some_iff {machine : Machine} {instruction : Instruction} :
    machine.due = some instruction ↔
      machine.status ≠ .crashed ∧ machine.Fetches ∧
        Instruction.decode machine.word = some instruction := by
  unfold due
  split
  · next hready => exact ⟨fun hread => ⟨hready.1, hready.2, hread⟩, fun hdue => hdue.2.2⟩
  · next hready => exact ⟨nofun, fun hdue => absurd ⟨hdue.1, hdue.2.1⟩ hready⟩

/-- The fault of the next cycle of a machine that has not crashed, if the cycle meets one. -/
def fault? (machine : Machine) : Option Fault :=
  if machine.Fetches then
    match Instruction.decode machine.word with
    | none => some (.unknownInstruction machine.word)
    | some instruction => machine.refusal instruction
  else some (.addressOutOfBounds (max machine.pc.toNat memorySize))

theorem fault?_of_decode {machine : Machine} {instruction : Instruction} (hfetch : machine.Fetches)
    (hread : Instruction.decode machine.word = some instruction) :
    machine.fault? = machine.refusal instruction := by
  unfold fault?
  rw [if_pos hfetch, hread]

theorem perform_eq_ok {machine next : Machine} {word : UInt16} {instruction : Instruction}
    (hread : Instruction.decode word = some instruction)
    (hexecute : machine.execute instruction = .ok next) :
    machine.perform word = ⟨next, .ok instruction.updatesScreen,
      .decoded machine.pc word instruction :: machine.notes instruction⟩ := by
  unfold perform
  rw [hread]
  simp only [hexecute]

section Live

variable {machine : Machine}

theorem cycle_of_crashed (hcrashed : machine.status = .crashed) :
    machine.cycle = machine.fail none .halted [] := by
  unfold cycle
  rw [if_pos hcrashed]

theorem cycle_of_fetches (hlive : machine.status ≠ .crashed) (hfetch : machine.Fetches) :
    machine.cycle = machine.beginCycle.perform machine.word := by
  have hread : machine.beginCycle.memory.readWord machine.beginCycle.pc.toNat =
      .ok machine.word := by
    rw [Memory.readWord_eq]
    exact if_pos hfetch
  unfold cycle
  rw [if_neg hlive]
  simp only [hread]

theorem cycle_of_not_fetches (hlive : machine.status ≠ .crashed) (hfetch : ¬ machine.Fetches) :
    machine.cycle = machine.beginCycle.fail none
      (.addressOutOfBounds (max machine.pc.toNat memorySize)) [] := by
  have hread : machine.beginCycle.memory.readWord machine.beginCycle.pc.toNat =
      .error (.addressOutOfBounds (max machine.pc.toNat memorySize)) := by
    rw [Memory.readWord_eq]
    exact if_neg hfetch
  unfold cycle
  rw [if_neg hlive]
  simp only [hread]

theorem refusal_beginCycle (instruction : Instruction) :
    machine.beginCycle.refusal instruction = machine.refusal instruction := rfl

/-- A cycle with a fault counts, and leaves everything but the status as it was. -/
theorem cycle_of_fault {fault : Fault} (hlive : machine.status ≠ .crashed)
    (hfault : machine.fault? = some fault) :
    ∃ records, machine.cycle = machine.beginCycle.fail machine.fetched fault records := by
  unfold fault? at hfault
  unfold fetched
  by_cases hfetch : machine.Fetches
  · rw [if_pos hfetch] at hfault ⊢
    rw [cycle_of_fetches hlive hfetch]
    unfold perform
    cases hread : Instruction.decode machine.word with
    | none =>
      simp only [hread] at hfault ⊢
      obtain rfl := Option.some.inj hfault
      exact ⟨_, rfl⟩
    | some instruction =>
      simp only [hread] at hfault ⊢
      have hrefused : machine.beginCycle.execute instruction = .error fault :=
        (execute_eq_error_iff _ _ _).mpr hfault
      simp only [hrefused]
      exact ⟨_, rfl⟩
  · rw [if_neg hfetch] at hfault ⊢
    obtain rfl := Option.some.inj hfault
    exact ⟨_, cycle_of_not_fetches hlive hfetch⟩

/-- A cycle without a fault carries out the instruction of the word at the program counter. -/
theorem cycle_of_done (hlive : machine.status ≠ .crashed) (hfault : machine.fault? = none) :
    machine.Fetches ∧ ∃ instruction next records,
      Instruction.decode machine.word = some instruction ∧
      machine.beginCycle.execute instruction = .ok next ∧
      machine.cycle = ⟨next, .ok instruction.updatesScreen, records⟩ := by
  unfold fault? at hfault
  split at hfault
  · next hfetch =>
    refine ⟨hfetch, ?_⟩
    rw [cycle_of_fetches hlive hfetch]
    split at hfault
    · cases hfault
    · next instruction hread =>
      cases hexecute : machine.beginCycle.execute instruction with
      | error fault =>
        -- counting the cycle does not make an instruction refused
        have hrefused := (execute_eq_error_iff _ _ _).mp hexecute
        rw [refusal_beginCycle, hfault] at hrefused
        cases hrefused
      | ok next => exact ⟨instruction, next, _, hread, hexecute, perform_eq_ok hread hexecute⟩
  · cases hfault

end Live

/-- Every cycle is refused on a crashed machine, meets a fault, or succeeds. -/
theorem cycle_cases (machine : Machine) :
    (machine.status = .crashed ∧ machine.cycle = machine.fail none .halted []) ∨
      (machine.status ≠ .crashed ∧ ∃ fault records, machine.fault? = some fault ∧
        machine.cycle = machine.beginCycle.fail machine.fetched fault records) ∨
      (machine.status ≠ .crashed ∧ machine.fault? = none ∧ machine.Fetches ∧
        ∃ instruction next records, Instruction.decode machine.word = some instruction ∧
          machine.beginCycle.execute instruction = .ok next ∧
          machine.cycle = ⟨next, .ok instruction.updatesScreen, records⟩) := by
  by_cases hcrashed : machine.status = .crashed
  · exact .inl ⟨hcrashed, cycle_of_crashed hcrashed⟩
  · cases hfault : machine.fault? with
    | some fault =>
      obtain ⟨records, hcycle⟩ := cycle_of_fault hcrashed hfault
      exact .inr (.inl ⟨hcrashed, fault, records, rfl, hcycle⟩)
    | none => exact .inr (.inr ⟨hcrashed, rfl, cycle_of_done hcrashed hfault⟩)

/-- A cycle has the effect of the instruction that is due; or it fails, and nothing but the status
and the number of cycles can be new. -/
theorem cycle_effect (machine : Machine) :
    (∃ instruction, machine.due = some instruction ∧
        machine.beginCycle.Effect instruction machine.cycle.machine ∧
        machine.cycle.result = .ok instruction.updatesScreen) ∨
      ∃ crash, machine.cycle.result = .error crash ∧
        (machine.cycle.machine = machine.halt ∨
          machine.cycle.machine = machine.beginCycle.halt) := by
  obtain ⟨-, hcycle⟩ | ⟨-, fault, records, -, hcycle⟩ |
      ⟨hlive, -, hfetch, instruction, next, records, hread, hexecute, hcycle⟩ := cycle_cases machine
  · rw [hcycle]
    exact .inr ⟨_, rfl, .inl rfl⟩
  · rw [hcycle]
    exact .inr ⟨_, rfl, .inr rfl⟩
  · rw [hcycle]
    exact .inl ⟨instruction, due_eq_some_iff.mpr ⟨hlive, hfetch, hread⟩,
      execute_eq_ok_iff.mp hexecute, rfl⟩

/-- An instruction that is due and not refused has its effect. -/
theorem effect_of_due {machine : Machine} {instruction : Instruction}
    (hdue : machine.due = some instruction) (hrefusal : machine.refusal instruction = none) :
    machine.beginCycle.Effect instruction machine.cycle.machine ∧
      machine.cycle.result = .ok instruction.updatesScreen := by
  obtain ⟨hlive, hfetch, hread⟩ := due_eq_some_iff.mp hdue
  obtain ⟨-, other, next, records, hother, hexecute, hcycle⟩ :=
    cycle_of_done hlive ((fault?_of_decode hfetch hread).trans hrefusal)
  obtain rfl := Option.some.inj (hread.symm.trans hother)
  rw [hcycle]
  exact ⟨execute_eq_ok_iff.mp hexecute, rfl⟩

/-- A cycle that succeeds has the effect of the instruction that was due, which also tells whether
the screen may be new. -/
theorem effect_of_ok {machine : Machine} {updated : Bool}
    (hdone : machine.cycle.result = .ok updated) :
    ∃ instruction, machine.due = some instruction ∧
      machine.beginCycle.Effect instruction machine.cycle.machine ∧
      updated = instruction.updatesScreen := by
  obtain ⟨instruction, hdue, heffect, hresult⟩ | ⟨crash, hcrash, -⟩ := machine.cycle_effect
  · exact ⟨instruction, hdue, heffect, Except.ok.inj (hdone.symm.trans hresult)⟩
  · cases hdone.symm.trans hcrash

/-- A cycle that asks for a key succeeds: it takes the number of the lowest key pressed and goes on,
or it waits. -/
theorem cycle_of_waitKey {machine : Machine} {x : Digit} (hdue : machine.due = some (.waitKey x)) :
    machine.cycle.result = .ok false ∧
      ((∃ key, machine.keypad.firstPressed = some key ∧ machine.cycle.machine =
          { machine.beginCycle.goOn.setRegister x (UInt8.ofNat key.val) with
            status := .running }) ∨
        (machine.keypad.firstPressed = none ∧
          machine.cycle.machine = { machine.beginCycle with status := .waitingForKeypress })) := by
  obtain ⟨heffect, hresult⟩ := effect_of_due hdue rfl
  refine ⟨hresult, ?_⟩
  generalize machine.cycle.machine = next at heffect
  cases heffect with
  | resume hkey => exact .inl ⟨_, hkey, rfl⟩
  | wait hkey => exact .inr ⟨hkey, rfl⟩

/-- A cycle of a machine that has not crashed is counted, however it ends. -/
theorem cycles_cycle {machine : Machine} (hlive : machine.status ≠ .crashed) :
    machine.cycle.machine.cycles = machine.cycles + 1 := by
  obtain ⟨hcrashed, -⟩ | ⟨-, fault, records, -, hcycle⟩ |
      ⟨-, -, -, instruction, next, records, -, hexecute, hcycle⟩ := cycle_cases machine
  · exact absurd hcrashed hlive
  · rw [hcycle]
    rfl
  · rw [hcycle]
    exact (config_of_execute hexecute).2.1

/-- A machine that has crashed stays as it is, and tells nothing else. -/
theorem crash_of_crashed {machine : Machine} {crash : Crash} (hcrashed : machine.status = .crashed)
    (hcrash : machine.cycle.result = .error crash) :
    machine.cycle.machine = machine ∧
      crash = ⟨⟨.halted, machine.pc, none⟩, machine.snapshot⟩ := by
  have hhalt := halt_of_crashed hcrashed
  rw [cycle_of_crashed hcrashed] at hcrash ⊢
  refine ⟨hhalt, ?_⟩
  have hsame : machine.crash none .halted = crash := Except.error.inj hcrash
  rw [← hsame, Machine.crash, hhalt]

/-- A cycle that meets a fault tells the crash of the machine whose cycle has been counted. -/
theorem crash_of_cycle {machine : Machine} {crash : Crash} (hlive : machine.status ≠ .crashed)
    (hcrash : machine.cycle.result = .error crash) :
    machine.fault? = some crash.fault ∧ machine.cycle.machine = machine.beginCycle.halt ∧
      crash = machine.beginCycle.crash machine.fetched crash.fault := by
  obtain ⟨hcrashed, -⟩ | ⟨-, fault, records, hfault, hcycle⟩ | ⟨-, -, -, _, _, _, -, -, hcycle⟩ :=
    cycle_cases machine
  · exact absurd hcrashed hlive
  · rw [hcycle] at hcrash ⊢
    cases hcrash
    exact ⟨hfault, rfl, rfl⟩
  · rw [hcycle] at hcrash
    cases hcrash

/-- Whatever the reason, a cycle that fails leaves a crashed machine, tells where it was and what it
looks like. -/
theorem wreck_of_error {machine : Machine} {crash : Crash}
    (hcrash : machine.cycle.result = .error crash) :
    machine.cycle.machine.status = .crashed ∧ crash.address = machine.cycle.machine.pc ∧
      crash.dump = machine.cycle.machine.snapshot := by
  obtain ⟨-, hcycle⟩ | ⟨-, fault, records, -, hcycle⟩ | ⟨-, -, -, _, _, _, -, -, hcycle⟩ :=
    cycle_cases machine
  · rw [hcycle] at hcrash ⊢
    cases hcrash
    exact ⟨rfl, rfl, rfl⟩
  · rw [hcycle] at hcrash ⊢
    cases hcrash
    exact ⟨rfl, rfl, rfl⟩
  · rw [hcycle] at hcrash
    cases hcrash

/-! ## Runs of cycles -/

/-- A run after one more cycle that succeeded. -/
def Run.next (run : Run) (updated : Bool) : Run where
  machine := run.machine.cycle.machine
  ran := run.ran + 1
  updates := if updated then run.updates + 1 else run.updates
  crash := none
  records := run.records ++ run.machine.cycle.records

/-- A run that has ended with a crash. -/
def Run.stop (run : Run) (crash : Crash) : Run where
  machine := run.machine.cycle.machine
  ran := run.ran
  updates := run.updates
  crash := some crash
  records := run.records ++ run.machine.cycle.records

theorem resume_of_ok {run : Run} {updated : Bool} (count : Nat)
    (hresult : run.machine.cycle.result = .ok updated) :
    resume (count + 1) run = resume count (run.next updated) := by
  rw [resume]
  simp only [hresult]
  rfl

theorem resume_of_error {run : Run} {crash : Crash} (count : Nat)
    (hresult : run.machine.cycle.result = .error crash) :
    resume (count + 1) run = run.stop crash := by
  rw [resume]
  simp only [hresult]
  rfl

end Machine
end Chip8
