import Chip8.Machine.Operation
import Chip8.Proofs.Machine.Cycle

/-!
# Histories without frames

A frame consists of cycles and a tick, all of which a host could ask for by themselves.

* `Machine.unroll` — a history with every frame replaced by what it consists of.
* `Machine.replies` — the answers that a host gets to a history.
* `after_unroll` — unrolling a history does not change where it leads.
* `Kept.after` — what cycles, ticks, keys and speeds keep holds after every history.
* `Kept.of_reachable` — and if it holds right after the start, it holds of all machines that can be
  reached.
-/

namespace Chip8
namespace Machine

/-- What a frame of some cycles consists of: cycles up to the first fault, and if there is none the
tick. -/
def frameSteps (machine : Machine) : Nat → List Operation
  | 0 => [.tick]
  | count + 1 =>
      .cycle ::
        match machine.cycle.result with
        | .ok _ => machine.cycle.machine.frameSteps count
        | .error _ => []

/-- What an operation consists of. -/
def steps (machine : Machine) : Operation → List Operation
  | .frame => machine.frameSteps machine.cyclesPerFrame.toNat
  | operation => [operation]

/-- A history with every frame replaced by what it consists of. -/
def unroll (machine : Machine) : List Operation → List Operation
  | [] => []
  | operation :: rest =>
      machine.steps operation ++ (operation.apply machine).machine.unroll rest

theorem after_append (machine : Machine) (early late : List Operation) :
    machine.after (early ++ late) = (machine.after early).after late := by
  induction early generalizing machine with
  | nil => rfl
  | cons operation rest ih => exact ih _

@[simp] theorem after_nil (machine : Machine) : machine.after [] = machine := rfl

theorem after_concat (machine : Machine) (early : List Operation) (operation : Operation) :
    machine.after (early ++ [operation]) = (operation.apply (machine.after early)).machine := by
  rw [after_append]
  rfl

/-- The replies to a list of host operations. -/
def replies (machine : Machine) : List Operation → List Reply
  | [] => []
  | operation :: rest =>
      (operation.apply machine).reply :: (operation.apply machine).machine.replies rest

theorem length_replies (machine : Machine) (history : List Operation) :
    (machine.replies history).length = history.length := by
  induction history generalizing machine with
  | nil => rfl
  | cons operation rest ih => exact congrArg (· + 1) (ih _)

theorem reply_eq_updated_iff {outcome : Outcome Bool} {updated : Bool} :
    outcome.toStep.reply = .updated updated ↔ outcome.result = .ok updated := by
  unfold Outcome.toStep
  cases outcome.result <;> simp

theorem reply_eq_crashed_iff {outcome : Outcome Bool} {crash : Crash} :
    outcome.toStep.reply = .crashed crash ↔ outcome.result = .error crash := by
  unfold Outcome.toStep
  cases outcome.result <;> simp

theorem replies_append (machine : Machine) (early late : List Operation) :
    machine.replies (early ++ late) =
      machine.replies early ++ (machine.after early).replies late := by
  induction early generalizing machine with
  | nil => rfl
  | cons operation rest ih => exact congrArg (_ :: ·) (ih _)

/-! ## Frames -/

theorem frameSteps_of_ok {machine : Machine} {updated : Bool} (count : Nat)
    (hresult : machine.cycle.result = .ok updated) :
    machine.frameSteps (count + 1) = .cycle :: machine.cycle.machine.frameSteps count := by
  rw [frameSteps, hresult]

theorem frameSteps_of_error {machine : Machine} {crash : Crash} (count : Nat)
    (hresult : machine.cycle.result = .error crash) :
    machine.frameSteps (count + 1) = [.cycle] := by
  rw [frameSteps, hresult]

/-- A run that has met no fault yet ends where the steps of as many cycles lead, the tick apart. -/
theorem after_frameSteps (count : Nat) (run : Run) (hrun : run.crash = none) :
    run.machine.after (run.machine.frameSteps count) =
      match (resume count run).crash with
      | none => (resume count run).machine.tick
      | some _ => (resume count run).machine := by
  -- the run is generalised, since the counts and records that it carries change with every cycle
  induction count generalizing run with
  | zero =>
    rw [resume, hrun]
    rfl
  | succ count ih =>
    cases hresult : run.machine.cycle.result with
    | ok updated =>
      rw [resume_of_ok count hresult, frameSteps_of_ok count hresult]
      exact ih (run.next updated) rfl
    | error crash =>
      rw [resume_of_error count hresult, frameSteps_of_error count hresult]
      rfl

theorem after_steps (machine : Machine) (operation : Operation) :
    machine.after (machine.steps operation) = (operation.apply machine).machine := by
  cases operation with
  | frame =>
    have hrun := after_frameSteps machine.cyclesPerFrame.toNat ⟨machine, 0, 0, none, #[]⟩ rfl
    refine hrun.trans ?_
    show _ = machine.frame.machine
    unfold frame run
    split <;> rename_i hcrash <;> simp only [hcrash]
  | _ => rfl

theorem after_unroll (machine : Machine) (operations : List Operation) :
    machine.after (machine.unroll operations) = machine.after operations := by
  induction operations generalizing machine with
  | nil => rfl
  | cons operation rest ih =>
    rw [unroll, after_append, after_steps, ih]
    rfl

theorem frame_notMem_frameSteps (machine : Machine) (count : Nat) :
    .frame ∉ machine.frameSteps count := by
  induction count generalizing machine with
  | zero =>
    rw [frameSteps]
    decide
  | succ count ih =>
    rw [frameSteps]
    split
    · exact List.not_mem_cons_of_ne_of_not_mem nofun (ih _)
    · decide

theorem frame_notMem_unroll (machine : Machine) (operations : List Operation) :
    .frame ∉ machine.unroll operations := by
  induction operations generalizing machine with
  | nil => exact List.not_mem_nil
  | cons operation rest ih =>
    rw [unroll, List.mem_append, not_or]
    refine ⟨?_, ih _⟩
    cases operation with
    | frame => exact frame_notMem_frameSteps machine _
    | _ => exact List.not_mem_cons_of_ne_of_not_mem nofun List.not_mem_nil

/-! ## Properties of histories -/

/-- A property that every single operation of a host keeps. -/
structure Kept (P : Machine → Prop) : Prop where
  cycle : ∀ machine, P machine → P machine.cycle.machine
  tick : ∀ machine, P machine → P machine.tick
  key : ∀ machine keypad, P machine → P { machine with keypad }
  speed : ∀ machine speed, P machine → P (machine.setSpeed speed)

section Kept

variable {P : Machine → Prop}

theorem Kept.apply (hkept : Kept P) {machine : Machine} (hmachine : P machine)
    {operation : Operation} (hframe : operation ≠ .frame) :
    P (operation.apply machine).machine := by
  cases operation with
  | cycle => exact hkept.cycle machine hmachine
  | frame => exact absurd rfl hframe
  | tick => exact hkept.tick machine hmachine
  | key number down =>
    simp only [Operation.apply, setKey]
    cases machine.keypad.set number down with
    | ok keypad => exact hkept.key machine keypad hmachine
    | error fault => exact hmachine
  | speed hertz => exact hkept.speed machine hertz hmachine

theorem Kept.after_unrolled (hkept : Kept P) {machine : Machine} (hmachine : P machine)
    {operations : List Operation} (hframe : .frame ∉ operations) :
    P (machine.after operations) := by
  induction operations generalizing machine with
  | nil => exact hmachine
  | cons operation rest ih =>
    rw [List.mem_cons, not_or] at hframe
    exact ih (hkept.apply hmachine (Ne.symm hframe.1)) hframe.2

/-- What every single operation keeps holds after every history. -/
theorem Kept.after (hkept : Kept P) {machine : Machine} (hmachine : P machine)
    (operations : List Operation) : P (machine.after operations) := by
  rw [← after_unroll]
  exact hkept.after_unrolled hmachine (frame_notMem_unroll machine operations)

/-- What holds right after the start and is kept by every single operation holds of all machines
that can be reached. -/
theorem Kept.of_reachable (hkept : Kept P)
    (hstart : ∀ program settings hostKey start,
      (boot program settings hostKey).result = .ok start → P start)
    {machine : Machine} (hreach : machine.Reachable) : P machine := by
  obtain ⟨program, settings, hostKey, start, operations, hboot, rfl⟩ := hreach
  exact hkept.after (hstart program settings hostKey start hboot) operations

end Kept

theorem Reachable.after {machine : Machine} (hreach : machine.Reachable)
    (operations : List Operation) : (machine.after operations).Reachable := by
  obtain ⟨program, settings, hostKey, start, earlier, hboot, rfl⟩ := hreach
  exact ⟨program, settings, hostKey, start, earlier ++ operations, hboot, after_append ..⟩

end Machine
end Chip8
