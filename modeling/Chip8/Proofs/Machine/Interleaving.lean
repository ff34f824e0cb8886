import Chip8.Proofs.Machine.Boot
import Chip8.Proofs.Machine.Frame
import Chip8.Proofs.Machine.Rest

/-!
# Host operations between cycles

A tick and a key can be moved across cycles whose instructions do not look at what they change.

* `Machine.Avoids` — none of a number of cycles carries out an instruction of some kind.
* `Instruction.usesTimers`, `Machine.asksKey` — the instructions that a tick or a key can matter to.
* `Avoids.cycled_recast`, `Avoids.replies_recast` — a change that the instructions look past
  commutes with any number of cycles and does not show in their answers.
* `after_interleaved` — ticks between cycles can be put off until the cycles are done.
* `key_across_cycles` — a key can be put off, or moved up.
* `host_operations_commute` — both, with the answers.
-/

namespace Chip8

/-- Whether an instruction reads or sets a timer. -/
def Instruction.usesTimers : Instruction → Bool
  | readDelay _ | setDelay _ | setSound _ => true
  | _ => false

/-- A reply without the timers that a crash shows. -/
def Reply.untimed : Reply → Reply
  | crashed crash => crashed { crash with dump := { crash.dump with delay := 0, sound := 0 } }
  | reply => reply

/-- A key that is not moved keeps its state. -/
theorem isPressed_nextKeypad (keypad : Keypad) {number : UInt8} {down : Bool} {other : Digit}
    (hother : number.toNat ≠ other.val) :
    ((Operation.key number down).nextKeypad keypad).isPressed other = keypad.isPressed other := by
  rw [isPressed_nextKeypad_eq, Operation.write?, if_neg hother]
  rfl

namespace Machine

/-- Whether an instruction depends on a key, on the machine that stands at it: it asks for any key,
or for the key with that number. -/
def asksKey (number : UInt8) (machine : Machine) : Instruction → Bool
  | .waitKey _ => true
  | .skipIf (.keyDown x) | .skipIf (.keyUp x) =>
      number.toNat == (machine.registers.get x).toNat % 16
  | _ => false

/-- None of a number of cycles carries out an instruction of some kind. -/
def Avoids (machine : Machine) (kind : Machine → Instruction → Bool) (count : Nat) : Prop :=
  ∀ place < count, ∀ instruction, (machine.cycled place).due = some instruction →
    kind (machine.cycled place) instruction = false

instance (machine : Machine) (kind : Machine → Instruction → Bool) (count : Nat) :
    Decidable (machine.Avoids kind count) :=
  decidable_of_iff (∀ place < count, ((machine.cycled place).due.all
      fun instruction => !kind (machine.cycled place) instruction) = true) <| by
    simp only [Avoids, Option.all_eq_true, Bool.not_eq_true']

/-- The replies to the cycles of a history. -/
def cycleReplies (machine : Machine) : List Operation → List Reply
  | [] => []
  | operation :: rest =>
      (if operation = .cycle then [(operation.apply machine).reply] else []) ++
        (operation.apply machine).machine.cycleReplies rest

/-! ## Changes between cycles -/

section Avoids

variable {change : Recast} {kind : Machine → Instruction → Bool} {machine : Machine} {count : Nat}

theorem avoids_succ : machine.Avoids kind (count + 1) ↔
    machine.Avoids kind count ∧ ∀ instruction, (machine.cycled count).due = some instruction →
      kind (machine.cycled count) instruction = false :=
  Nat.forall_lt_succ_right

/-- What a number of cycles avoids, all but the first of them avoid. -/
theorem Avoids.cycle (havoids : machine.Avoids kind (count + 1)) :
    machine.cycle.machine.Avoids kind count :=
  fun place hplace => havoids (place + 1) (Nat.succ_lt_succ hplace)

variable (hignores : ∀ machine instruction, kind machine instruction = false →
  machine.Ignores change instruction)

include hignores

theorem Avoids.unseen (havoids : machine.Avoids kind count) {place : Nat} (hplace : place < count) :
    (machine.cycled place).Unseen change :=
  fun instruction hdue => hignores _ instruction (havoids place hplace instruction hdue)

/-- A change that the instructions look past commutes with the cycles. -/
theorem Avoids.cycled_recast (havoids : machine.Avoids kind count) :
    (machine.recast change).cycled count = (machine.cycled count).recast change := by
  induction count with
  | zero => rfl
  | succ count ih =>
    have hlast := havoids.unseen hignores (Nat.lt_succ_self count)
    rw [cycled_concat, cycled_concat, ih (avoids_succ.mp havoids).1, (cycle_recast hlast).1]

/-- If the change does not show in the answer to one cycle, it shows in none. -/
theorem Avoids.replies_recast {view : Reply → Reply}
    (hview : ∀ machine : Machine, machine.Unseen change →
      view (machine.recast change).cycle.toStep.reply = view machine.cycle.toStep.reply)
    (havoids : machine.Avoids kind count) :
    ((machine.recast change).replies (.replicate count .cycle)).map view =
      (machine.replies (.replicate count .cycle)).map view := by
  induction count generalizing machine with
  | zero => rfl
  | succ count ih =>
    have hfirst : machine.Unseen change := havoids.unseen hignores (Nat.succ_pos count)
    have hnext : (Operation.cycle.apply (machine.recast change)).machine =
        machine.cycle.machine.recast change := (cycle_recast hfirst).1
    rw [List.replicate_succ, replies, replies, List.map_cons, List.map_cons, hnext,
      ih havoids.cycle]
    exact congrArg (· :: _) (hview machine hfirst)

/-- The change does not matter to what the cycles avoid, if it does not matter to one of them. -/
theorem avoids_recast (hkind : ∀ machine, kind (machine.recast change) = kind machine) :
    (machine.recast change).Avoids kind count ↔ machine.Avoids kind count := by
  induction count with
  | zero => exact iff_of_true nofun nofun
  | succ count ih =>
    rw [avoids_succ, avoids_succ, ih]
    refine and_congr_right fun havoids => ?_
    rw [havoids.cycled_recast hignores, hkind, due_aside (aside_recast change)]

end Avoids

/-! ## Ticks -/

/-- A tick as a change of the timers. -/
def ticking : Recast := { timers := Timers.tick }

theorem ignores_ticking (machine : Machine) {instruction : Instruction}
    (hfree : instruction.usesTimers = false) : machine.Ignores ticking instruction := by
  cases instruction with
  | skipIf condition => cases condition <;> rfl
  | draw x y rows => exact fun _ _ => rfl
  | storeBlock x | loadBlock x => exact fun _ => rfl
  | readDelay x | setDelay x | setSound x => cases hfree
  | _ => trivial

/-- A tick shows in the answer to a cycle by the timers of a crash at most. -/
theorem untimed_ticking {machine : Machine} (hunseen : machine.Unseen ticking) :
    (machine.recast ticking).cycle.toStep.reply.untimed = machine.cycle.toStep.reply.untimed := by
  obtain ⟨-, hok, herror⟩ := cycle_recast hunseen
  cases hresult : machine.cycle.result with
  | ok updated =>
    rw [reply_eq_updated_iff.mpr hresult, reply_eq_updated_iff.mpr (hok updated hresult)]
  | error crash =>
    obtain ⟨-, -, hdump⟩ := wreck_of_error hresult
    rw [reply_eq_crashed_iff.mpr hresult, reply_eq_crashed_iff.mpr (herror crash hresult),
      Reply.untimed, Reply.untimed, hdump]
    rfl

/-- Ticks between cycles that use no timer can be put off until the cycles are done. -/
theorem after_interleaved {machine : Machine} {history : List Operation}
    (hpure : ∀ operation ∈ history, operation = .cycle ∨ operation = .tick)
    (hfree : machine.Avoids (fun _ => Instruction.usesTimers) (history.count .cycle)) :
    machine.after history =
        (machine.cycled (history.count .cycle)).after
          (.replicate (history.count .tick) .tick) ∧
      (machine.cycleReplies history).map Reply.untimed =
        (machine.replies (.replicate (history.count .cycle) .cycle)).map Reply.untimed := by
  induction history generalizing machine with
  | nil => exact ⟨rfl, rfl⟩
  | cons operation rest ih =>
    obtain ⟨rfl | rfl, hrest⟩ := List.forall_mem_cons.mp hpure
    · have hticks : (Operation.cycle :: rest).count .tick = rest.count .tick :=
        List.count_cons_of_ne (by decide)
      rw [List.count_cons_self] at hfree ⊢
      rw [hticks]
      obtain ⟨hafter, hreplies⟩ := ih hrest hfree.cycle
      refine ⟨hafter, ?_⟩
      exact congrArg (_ :: ·) hreplies
    · have hcycles : (Operation.tick :: rest).count .cycle = rest.count .cycle :=
        List.count_cons_of_ne (by decide)
      rw [hcycles] at hfree ⊢
      rw [List.count_cons_self]
      have hignores := fun machine instruction => @ignores_ticking machine instruction
      -- the cycles behind the tick avoid the timers as well, and commute with the tick
      have hlater := (avoids_recast hignores fun _ => rfl).mpr hfree
      obtain ⟨hafter, hreplies⟩ := ih hrest hlater
      refine ⟨hafter.trans ?_, hreplies.trans ?_⟩
      · rw [hfree.cycled_recast hignores]
        rfl
      · exact hfree.replies_recast hignores fun _ => untimed_ticking

/-! ## Keys -/

/-- A key as a change of the keypad. -/
def keying (number : UInt8) (down : Bool) : Recast :=
  { keypad := fun keypad => (Operation.key number down).nextKeypad keypad }

theorem ignores_keying {number : UInt8} (down : Bool) (machine : Machine)
    {instruction : Instruction} (hfree : asksKey number machine instruction = false) :
    machine.Ignores (keying number down) instruction := by
  cases instruction with
  | skipIf condition =>
    cases condition with
    | keyDown x => exact isPressed_nextKeypad _ (beq_eq_false_iff_ne.mp hfree)
    | keyUp x => exact congrArg (!·) (isPressed_nextKeypad _ (beq_eq_false_iff_ne.mp hfree))
    | _ => rfl
  | draw x y rows => exact fun _ _ => rfl
  | storeBlock x | loadBlock x => exact fun _ => rfl
  | waitKey x => cases hfree
  | _ => trivial

section Key

variable {machine : Machine} {number : UInt8} {down : Bool} {count : Nat}

theorem apply_key : ((Operation.key number down).apply machine).machine =
    machine.recast (keying number down) := by
  simp only [Operation.apply, setKey, recast, keying, Operation.nextKeypad]
  cases machine.keypad.set number down <;> rfl

/-- Whether there is such a key does not depend on the machine. -/
theorem reply_key (other : Machine) : ((Operation.key number down).apply machine).reply =
    ((Operation.key number down).apply other).reply := by
  by_cases hnumber : number.toNat < 16
  · simp only [Operation.apply, setKey, Keypad.set, if_pos hnumber, Except.map]
  · simp only [Operation.apply, setKey, Keypad.set, if_neg hnumber, Except.map]

/-- A key can be moved across cycles that do not depend on it, whether these are known from before
the key or from behind it. -/
theorem key_across_cycles
    (hfree : machine.Avoids (asksKey number) count ∨
      ((Operation.key number down).apply machine).machine.Avoids (asksKey number) count) :
    (machine.recast (keying number down)).cycled count =
        (machine.cycled count).recast (keying number down) ∧
      (machine.recast (keying number down)).replies (.replicate count .cycle) =
        machine.replies (.replicate count .cycle) := by
  have hignores := fun machine instruction => @ignores_keying number down machine instruction
  have havoids : machine.Avoids (asksKey number) count := by
    rw [apply_key, avoids_recast hignores fun _ => rfl, or_self] at hfree
    exact hfree
  refine ⟨havoids.cycled_recast hignores, ?_⟩
  -- the keypad is no part of a crash, so the answers are the same as they stand
  have hanswer : ∀ machine : Machine, machine.Unseen (keying number down) →
      id (machine.recast (keying number down)).cycle.toStep.reply =
        id machine.cycle.toStep.reply := fun machine hunseen => by
    simp only [Outcome.toStep, result_recast rfl hunseen]
  simpa using havoids.replies_recast hignores hanswer

end Key

/-- Ticks and keys are independent of cycles that do not look at them.  If none of the cycles of a
history, run by themselves, carries out an instruction that reads or sets a timer, then the ticks of
the history can be put off until its cycles are done, and the answers to the cycles differ at most
in the timers that a crash shows.  A key can be moved across cycles that carry out no instruction
that asks for any key or for that one; then the final machine and all answers are the same. -/
theorem host_operations_commute :
    (∀ (machine : Machine) (history : List Operation),
      (∀ operation ∈ history, operation = .cycle ∨ operation = .tick) →
      let cycles := history.count .cycle
      let ticks := history.count .tick
      machine.Avoids (fun _ => Instruction.usesTimers) cycles →
      machine.after history =
          machine.after (.replicate cycles .cycle ++ .replicate ticks .tick) ∧
        (machine.cycleReplies history).map Reply.untimed =
          (machine.replies (.replicate cycles .cycle)).map Reply.untimed) ∧
      ∀ (machine : Machine) (number : UInt8) (down : Bool) (count : Nat) (late : List Operation),
        (machine.Avoids (asksKey number) count ∨
          ((Operation.key number down).apply machine).machine.Avoids (asksKey number) count) →
        let sooner := .key number down :: (List.replicate count .cycle ++ late)
        let later := List.replicate count .cycle ++ .key number down :: late
        machine.after sooner = machine.after later ∧
          ∃ reply early behind, early.length = count ∧
            machine.replies sooner = reply :: (early ++ behind) ∧
            machine.replies later = early ++ reply :: behind := by
  constructor
  · intro machine history hpure cycles ticks hfree
    obtain ⟨hafter, hreplies⟩ := after_interleaved hpure hfree
    rw [after_append]
    exact ⟨hafter, hreplies⟩
  · intro machine number down count late hfree sooner later
    obtain ⟨hcycled, hreplies⟩ := key_across_cycles hfree
    have hlength : (machine.replies (.replicate count .cycle)).length = count := by
      rw [length_replies, List.length_replicate]
    constructor
    · show Machine.after _ (.replicate count .cycle ++ late) = machine.after later
      rw [after_append, after_append, apply_key]
      show ((machine.recast _).cycled count).after late =
        ((Operation.key number down).apply (machine.cycled count)).machine.after late
      rw [hcycled, apply_key]
    · refine ⟨((Operation.key number down).apply machine).reply, _,
        ((machine.cycled count).recast (keying number down)).replies late, hlength, ?_, ?_⟩
      · rw [replies, replies_append, apply_key, hreplies]
        show _ :: (_ ++ ((machine.recast _).cycled count).replies late) = _
        rw [hcycled]
      · rw [replies_append, replies, apply_key]
        exact congrArg (_ ++ · :: _) (reply_key machine)

/-- Ticks before and between three cycles, the last of which meets a return without a call, and a
key other than the one that the second of them asks for. -/
theorem host_operations_commute_before_crash :
    let program : Program := ⟨[0x60, 0x05, 0xF0, 0x15, 0x61, 0x05, 0xE1, 0x9E, 0x00, 0xEE]⟩
    let machine := (loaded program {} (.ofSeed 0)).after [.cycle, .cycle]
    let mixed : List Operation := [.tick, .cycle, .tick, .cycle, .cycle, .tick]
    let cycles : List Operation := [.cycle, .cycle, .cycle]
    machine.Reachable ∧
      machine.Avoids (fun _ => Instruction.usesTimers) 3 ∧
      machine.after mixed = machine.after (cycles ++ [.tick, .tick, .tick]) ∧
      (machine.cycleReplies mixed).map Reply.untimed =
        (machine.replies cycles).map Reply.untimed ∧
      (machine.after mixed).status = .crashed ∧ (machine.after mixed).timers.delay = 2 ∧
      machine.Avoids (asksKey 7) 3 ∧ ¬ machine.Avoids (asksKey 5) 3 ∧
      machine.after (.key 7 true :: (cycles ++ [.cycle])) =
        machine.after (cycles ++ .key 7 true :: [.cycle]) := by
  intro program machine mixed cycles
  obtain ⟨htimers, hcrashed, hdelay, hother, hkey⟩ :
      machine.Avoids (fun _ => Instruction.usesTimers) 3 ∧
        (machine.after mixed).status = .crashed ∧ (machine.after mixed).timers.delay = 2 ∧
        machine.Avoids (asksKey 7) 3 ∧ ¬ machine.Avoids (asksKey 5) 3 := by
    decide +kernel
  obtain ⟨hticks, hkeys⟩ := host_operations_commute
  obtain ⟨hafter, hreplies⟩ := hticks machine mixed (by decide) htimers
  obtain ⟨hmoved, -⟩ := hkeys machine 7 true 3 [.cycle] (.inl hother)
  have hboot : (boot program {} (.ofSeed 0)).result = .ok (loaded program {} (.ofSeed 0)) :=
    boot_eq_ok_iff.mpr ⟨by decide, by decide, by decide, rfl⟩
  exact ⟨⟨program, {}, .ofSeed 0, _, _, hboot, rfl⟩, htimers, hafter, hreplies, hcrashed, hdelay,
    hother, hkey, hmoved⟩

end Machine
end Chip8
