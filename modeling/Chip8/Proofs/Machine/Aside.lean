import Chip8.Proofs.Machine.Cycle
import Chip8.Proofs.Machine.History

/-!
# What cycles do not look at

A part of a machine that the next instruction neither reads nor writes can be changed before the
cycle or after it.

* `Machine.Aside` — changes that leave alone how a cycle finds its instruction and counts.
* `fault?_aside` — the next cycle fails as before if the instruction is refused as before.
* `cycle_aside` — and then a cycle commutes with the change, if the instruction does.
* `Machine.Recast` — changes of the timers, the keypad, the speed and the dialect, which only few
  instructions look at; `Machine.Ignores` says of each instruction what of them it looks at.
* `Effect.recast`, `cycle_recast` — instructions and cycles that look past such a change commute
  with it; `result_recast` — and answer the same if the timers are left alone.
* `apply_recast` — and so do all operations but frames, if the host does not touch it either.
* `unseen_speed` — the speed is such a part for every instruction.
-/

namespace Chip8
namespace Machine

/-- A change of machines that leaves alone how a cycle finds its instruction and counts. -/
structure Aside (change : Machine → Machine) : Prop where
  status_eq : ∀ machine, (change machine).status = machine.status
  memory_eq : ∀ machine, (change machine).memory = machine.memory
  pc_eq : ∀ machine, (change machine).pc = machine.pc
  beginCycle_eq : ∀ machine, (change machine).beginCycle = change machine.beginCycle
  halt_eq : ∀ machine, (change machine).halt = change machine.halt

section Aside

variable {change : Machine → Machine} {machine : Machine}

theorem Aside.word_eq (haside : Aside change) : (change machine).word = machine.word := by
  rw [word, haside.memory_eq, haside.pc_eq, word]

theorem Aside.fetches_iff (haside : Aside change) : (change machine).Fetches ↔ machine.Fetches := by
  rw [Fetches, haside.pc_eq, Fetches]

theorem Aside.fetched_eq (haside : Aside change) : (change machine).fetched = machine.fetched := by
  simp only [fetched, haside.word_eq, haside.fetches_iff]

theorem due_aside (haside : Aside change) : (change machine).due = machine.due := by
  simp only [due, haside.status_eq, haside.fetches_iff, haside.word_eq]

/-- The next cycle fails as before if the instruction is refused as before. -/
theorem fault?_aside (haside : Aside change) (hlive : machine.status ≠ .crashed)
    (hrefusal : ∀ instruction, machine.due = some instruction →
      (change machine).refusal instruction = machine.refusal instruction) :
    (change machine).fault? = machine.fault? := by
  simp only [fault?, haside.word_eq, haside.fetches_iff, haside.pc_eq]
  split
  · next hfetch =>
    cases hread : Instruction.decode machine.word with
    | none => rfl
    | some instruction =>
      simp only [hrefusal instruction (due_eq_some_iff.mpr ⟨hlive, hfetch, hread⟩)]
  · rfl

/-- A crash after a change is the same but for what the change shows in its dump. -/
theorem crash_aside (haside : Aside change) (word : Option UInt16) (fault : Fault) :
    (change machine).crash word fault =
      { machine.crash word fault with dump := (change machine.halt).snapshot } := by
  simp only [crash, haside.pc_eq, haside.halt_eq]

/-- A cycle commutes with a change if its instruction does. -/
theorem cycle_aside (haside : Aside change)
    (hrefusal : ∀ instruction, machine.due = some instruction →
      (change machine).refusal instruction = machine.refusal instruction)
    (heffect : ∀ instruction next, machine.due = some instruction →
      machine.beginCycle.Effect instruction next →
        (change machine.beginCycle).Effect instruction (change next)) :
    (change machine).cycle.machine = change machine.cycle.machine ∧
      (∀ updated, machine.cycle.result = .ok updated →
        (change machine).cycle.result = .ok updated) ∧
      ∀ crash, machine.cycle.result = .error crash →
        (change machine).cycle.result =
          .error { crash with dump := (change machine.cycle.machine).snapshot } := by
  have hstatus := haside.status_eq machine
  obtain ⟨hcrashed, hcycle⟩ | ⟨hlive, fault, records, hfault, hcycle⟩ |
      ⟨hlive, hfault, hfetch, instruction, next, records, hread, hexecute, hcycle⟩ :=
    cycle_cases machine
  · rw [cycle_of_crashed (hstatus.trans hcrashed), hcycle]
    refine ⟨haside.halt_eq machine, nofun, fun crash hcrash => ?_⟩
    obtain rfl := Except.error.inj hcrash
    exact congrArg Except.error (crash_aside haside none .halted)
  · obtain ⟨records', hcycle'⟩ :=
      cycle_of_fault (fun h => hlive (hstatus.symm.trans h))
        ((fault?_aside haside hlive hrefusal).trans hfault)
    rw [hcycle', hcycle, haside.beginCycle_eq]
    refine ⟨haside.halt_eq _, nofun, fun crash hcrash => ?_⟩
    obtain rfl := Except.error.inj hcrash
    rw [haside.fetched_eq]
    exact congrArg Except.error (crash_aside haside machine.fetched fault)
  · obtain ⟨-, other, next', records', hread', hexecute', hcycle'⟩ :=
      cycle_of_done (fun h => hlive (hstatus.symm.trans h))
        ((fault?_aside haside hlive hrefusal).trans hfault)
    rw [haside.word_eq, hread] at hread'
    obtain rfl := Option.some.inj hread'
    have hdue : machine.due = some instruction := due_eq_some_iff.mpr ⟨hlive, hfetch, hread⟩
    have hchanged := execute_eq_ok_iff.mpr
      (heffect instruction next hdue (execute_eq_ok_iff.mp hexecute))
    rw [haside.beginCycle_eq, hchanged] at hexecute'
    rw [hcycle', hcycle]
    refine ⟨(Except.ok.inj hexecute').symm, fun _ hupdated => hupdated, fun crash hcrash => ?_⟩
    cases hcrash

end Aside

/-! ## Parts that few instructions look at -/

/-- A change of the parts of a machine that only few instructions look at. -/
structure Recast where
  timers : Timers → Timers := id
  keypad : Keypad → Keypad := id
  speed : UInt64 → UInt64 := id
  dialect : Dialect → Dialect := id

def recast (machine : Machine) (change : Recast) : Machine :=
  { machine with
    timers := change.timers machine.timers
    keypad := change.keypad machine.keypad
    speed := change.speed machine.speed
    dialect := change.dialect machine.dialect }

theorem aside_recast (change : Recast) : Aside (·.recast change) where
  status_eq _ := rfl
  memory_eq _ := rfl
  pc_eq _ := rfl
  beginCycle_eq _ := rfl
  halt_eq _ := rfl

/-- What an instruction looks at is the same before and after a change. -/
def Ignores (machine : Machine) (change : Recast) : Instruction → Prop
  | .skipIf condition => (machine.recast change).holds condition = machine.holds condition
  | .combine op x y => machine.registers.combine (change.dialect machine.dialect) op x y =
      machine.registers.combine machine.dialect op x y
  | .jumpOffset base => (machine.recast change).jumpTarget base = machine.jumpTarget base
  | .draw x y rows => ∀ sprite, machine.memory.read machine.index.toNat rows.val = .ok sprite →
      Screen.draw (change.dialect machine.dialect).edge (machine.registers.get x).toNat
          (machine.registers.get y).toNat sprite machine.screen =
        Screen.draw machine.dialect.edge (machine.registers.get x).toNat
          (machine.registers.get y).toNat sprite machine.screen
  | .readDelay _ => (change.timers machine.timers).delay = machine.timers.delay
  | .waitKey _ => (change.keypad machine.keypad).firstPressed = machine.keypad.firstPressed
  | .setDelay x => change.timers { machine.timers with delay := machine.registers.get x } =
      { change.timers machine.timers with delay := machine.registers.get x }
  | .setSound x => change.timers { machine.timers with sound := machine.registers.get x } =
      { change.timers machine.timers with sound := machine.registers.get x }
  | .storeBlock x | .loadBlock x => machine.index.toNat + (x.val + 1) ≤ memorySize →
      (machine.recast change).indexAfterBlock x = machine.indexAfterBlock x
  | _ => True

/-- The next cycle looks past a change. -/
def Unseen (machine : Machine) (change : Recast) : Prop :=
  ∀ instruction, machine.due = some instruction → machine.Ignores change instruction

section Recast

variable {change : Recast} {machine : Machine}

theorem refusal_recast {instruction : Instruction} (hignores : machine.Ignores change instruction) :
    (machine.recast change).refusal instruction = machine.refusal instruction := by
  cases instruction with
  | jumpOffset base =>
    rw [Ignores] at hignores
    simp only [refusal, hignores]
  | _ => rfl

/-- An instruction that looks past a change has the same effect before and after it. -/
theorem Effect.recast {next : Machine} {instruction : Instruction}
    (heffect : machine.Effect instruction next) (hignores : machine.Ignores change instruction) :
    (machine.recast change).Effect instruction (next.recast change) := by
  cases heffect with
  | ret hpop => exact .ret hpop
  | call hpush => exact .call hpush
  | skip hholds => exact .skip (hignores.trans hholds)
  | noSkip hholds => exact .noSkip (hignores.trans hholds)
  | combine =>
    rw [← hignores]
    exact .combine
  | jumpOffset hinside =>
    rw [← hignores] at hinside ⊢
    exact .jumpOffset hinside
  | draw hread hdrawn => exact .draw hread ((hignores _ hread).trans hdrawn)
  | readDelay =>
    rw [← hignores]
    exact .readDelay
  | resume hkey => exact .resume (hignores.trans hkey)
  | wait hkey => exact .wait (hignores.trans hkey)
  | @setDelay x =>
    show (machine.recast change).Effect (.setDelay x) { (machine.recast change).goOn with
      timers := change.timers { machine.timers with delay := machine.registers.get x } }
    rw [Ignores] at hignores
    rw [hignores]
    exact .setDelay
  | @setSound x =>
    show (machine.recast change).Effect (.setSound x) { (machine.recast change).goOn with
      timers := change.timers { machine.timers with sound := machine.registers.get x } }
    rw [Ignores] at hignores
    rw [hignores]
    exact .setSound
  | storeDecimal hwrite => exact .storeDecimal hwrite
  | @storeBlock x _ hwrite =>
    obtain ⟨hfits, -⟩ := Memory.write_eq_ok_iff.mp hwrite
    rw [Registers.length_upTo] at hfits
    rw [← hignores hfits]
    exact .storeBlock hwrite
  | loadBlock hread =>
    rw [← hignores (Memory.read_eq_ok_iff.mp hread).1]
    exact .loadBlock hread
  | _ => constructor

/-- A cycle that looks past a change commutes with it. -/
theorem cycle_recast (hunseen : machine.Unseen change) :
    (machine.recast change).cycle.machine = machine.cycle.machine.recast change ∧
      (∀ updated, machine.cycle.result = .ok updated →
        (machine.recast change).cycle.result = .ok updated) ∧
      ∀ crash, machine.cycle.result = .error crash →
        (machine.recast change).cycle.result =
          .error { crash with dump := (machine.cycle.machine.recast change).snapshot } :=
  cycle_aside (aside_recast change)
    (fun instruction hdue => refusal_recast (hunseen instruction hdue))
    (fun instruction _ hdue heffect => heffect.recast (hunseen instruction hdue))

/-- A change that leaves the timers alone does not show in a crash. -/
theorem result_recast (htimers : change.timers = id) (hunseen : machine.Unseen change) :
    (machine.recast change).cycle.result = machine.cycle.result := by
  obtain ⟨-, hok, herror⟩ := cycle_recast hunseen
  cases hresult : machine.cycle.result with
  | ok updated => exact hok updated hresult
  | error crash =>
    obtain ⟨-, -, hdump⟩ := wreck_of_error hresult
    have hsnapshot : (machine.cycle.machine.recast change).snapshot = crash.dump := by
      rw [hdump]
      simp only [snapshot, Machine.recast, htimers, id]
    rw [herror crash hresult, hsnapshot]

/-- A change that the host does not touch either commutes with every operation but a frame, and does
not show in the answer. -/
theorem apply_recast {operation : Operation} (htimers : change.timers = id)
    (hkeypad : change.keypad = id)
    (hspeed : (∀ hertz, operation ≠ .speed hertz) ∨ change.speed = id)
    (hframe : operation ≠ .frame) (hunseen : operation = .cycle → machine.Unseen change) :
    (operation.apply (machine.recast change)).machine =
        (operation.apply machine).machine.recast change ∧
      (operation.apply (machine.recast change)).reply = (operation.apply machine).reply := by
  cases operation with
  | cycle =>
    have hresult := result_recast htimers (hunseen rfl)
    refine ⟨(cycle_recast (hunseen rfl)).1, ?_⟩
    simp only [Operation.apply, Outcome.toStep, hresult]
  | frame => exact absurd rfl hframe
  | tick => simp only [Operation.apply, tick, recast, htimers, id, and_self]
  | key number down =>
    simp only [Operation.apply, setKey, recast, hkeypad, id]
    cases machine.keypad.set number down with
    | ok keypad => exact ⟨rfl, rfl⟩
    | error fault => exact ⟨rfl, rfl⟩
  | speed hertz =>
    have hspeed : change.speed = id := hspeed.resolve_left fun hother => hother hertz rfl
    simp only [Operation.apply, setSpeed, recast, hspeed, id, and_self]

end Recast

/-! ## The speed -/

/-- No instruction looks at the speed. -/
theorem unseen_speed (machine : Machine) (speed : UInt64) :
    machine.Unseen { speed := fun _ => speed } := by
  intro instruction _
  cases instruction with
  | skipIf condition => cases condition <;> rfl
  | draw x y rows => exact fun _ _ => rfl
  | storeBlock x | loadBlock x => exact fun _ => rfl
  | _ => trivial

end Machine
end Chip8
