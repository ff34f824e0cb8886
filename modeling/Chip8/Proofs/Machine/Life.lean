import Chip8.Proofs.InPlace.Agreement
import Chip8.Proofs.Machine.Calls
import Chip8.Proofs.Machine.Rest

/-!
# The life of a machine

A machine is loaded until its first cycle, and crashed from the first cycle that fails.  After that
it is a wreck, which answers but does not change.

* `Machine.live` — the machine has not crashed.
* `cycles_after` — the number of cycles is the number of those asked of a live machine.
* `kept_loaded` — a machine is as it was loaded exactly as long as no cycle has been counted.
* `crashed_after` — a machine has crashed exactly if one of the answers was a crash.
* `wreck_apply`, `wreck_after` — nothing happens to a wreck but what its host does to it.
* `life_cycle` — all of this from a start on, for the machine and for its board.
-/

namespace Chip8
namespace Machine

/-- The machine has not crashed. -/
def live (machine : Machine) : Bool :=
  machine.status != .crashed

theorem live_eq_true_iff {machine : Machine} :
    machine.live = true ↔ machine.status ≠ .crashed := bne_iff_ne

/-! ## The number of cycles -/

theorem cycles_step (machine : Machine) {operation : Operation} (hframe : operation ≠ .frame) :
    (operation.apply machine).machine.cycles =
      machine.cycles + (if operation = .cycle ∧ machine.live then 1 else 0) := by
  cases hworks : operation.works with
  | false =>
    have hother : operation ≠ .cycle := by
      rintro rfl
      cases hworks
    rw [apply_of_not_works machine hworks, if_neg fun h => hother h.1]
    rfl
  | true =>
    cases operation with
    | cycle =>
      show machine.cycle.machine.cycles = _
      by_cases hcrashed : machine.status = .crashed
      · rw [cycle_of_crashed hcrashed, if_neg fun h => live_eq_true_iff.mp h.2 hcrashed]
        rfl
      · rw [cycles_cycle hcrashed, if_pos ⟨rfl, live_eq_true_iff.mpr hcrashed⟩]
    | frame => exact absurd rfl hframe
    | _ => cases hworks

/-- The number of cycles is the number of those that were asked of a machine that had not
crashed. -/
theorem cycles_after (machine : Machine) {history : List Operation} (hframe : .frame ∉ history) :
    (machine.after history).cycles = machine.cycles + machine.count live history := by
  induction history generalizing machine with
  | nil => rfl
  | cons operation rest ih =>
    rw [List.mem_cons, not_or] at hframe
    rw [after, ih _ hframe.2, cycles_step machine (Ne.symm hframe.1), count, Nat.add_assoc]

/-! ## The status -/

/-- After a cycle, a machine is no longer as it was loaded, and it has crashed exactly if the cycle
failed. -/
theorem status_cycle (machine : Machine) :
    machine.cycle.machine.status ≠ .programLoaded ∧
      (machine.cycle.machine.status = .crashed ↔
        ∃ crash, machine.cycle.result = .error crash) := by
  obtain ⟨-, hcycle⟩ | ⟨-, fault, records, -, hcycle⟩ |
      ⟨hlive, -, -, instruction, next, records, -, hexecute, hcycle⟩ := cycle_cases machine
  · rw [hcycle]
    exact ⟨nofun, iff_of_true rfl ⟨_, rfl⟩⟩
  · rw [hcycle]
    exact ⟨nofun, iff_of_true rfl ⟨_, rfl⟩⟩
  · rw [hcycle]
    have hfree : ¬ ∃ crash : Crash,
        (.ok instruction.updatesScreen : Except Crash Bool) = .error crash := by simp
    have hbegun : machine.beginCycle.status ≠ .programLoaded ∧
        machine.beginCycle.status ≠ .crashed := by
      simp only [beginCycle]
      split
      · exact ⟨nofun, nofun⟩
      · next hstarted => exact ⟨hstarted, hlive⟩
    obtain ⟨x, -, hrunning | rfl⟩ | ⟨-, hsame⟩ := status_of_execute hexecute
    · rw [hrunning]
      exact ⟨nofun, iff_of_false nofun hfree⟩
    · exact ⟨nofun, iff_of_false nofun hfree⟩
    · rw [hsame]
      exact ⟨hbegun.1, iff_of_false hbegun.2 hfree⟩

/-- A machine is as it was loaded exactly as long as no cycle has been counted. -/
theorem kept_loaded : Kept fun machine => machine.status = .programLoaded ↔ machine.cycles = 0 where
  cycle := by
    intro machine hkept
    refine iff_of_false (status_cycle machine).1 ?_
    by_cases hcrashed : machine.status = .crashed
    · rw [cycle_of_crashed hcrashed]
      intro hzero
      cases hcrashed.symm.trans (hkept.mpr hzero)
    · rw [cycles_cycle hcrashed]
      exact Nat.succ_ne_zero _
  tick _ hkept := hkept
  key _ _ hkept := hkept
  speed _ _ hkept := hkept

/-! ## The crash -/

/-- A frame leaves a crashed machine exactly if it fails, and its crash names the place where the
machine stays. -/
theorem status_frame (machine : Machine) :
    (machine.frame.machine.status = .crashed ↔ ∃ crash, machine.frame.result = .error crash) ∧
      ∀ crash, machine.frame.result = .error crash →
        crash.address = machine.frame.machine.pc := by
  obtain hall | ⟨place, hplace, crash, hbefore, hfailed⟩ :=
    machine.succeeds_or_failure machine.cyclesPerFrame.toNat
  · obtain ⟨updated, hresult, -, hmachine⟩ := frame_of_succeeds hall
    rw [hresult, hmachine]
    refine ⟨iff_of_false ?_ (by simp), by simp⟩
    -- there is a last cycle, and it did not fail
    obtain ⟨last, hlast⟩ := Nat.exists_eq_add_one.mpr machine.cyclesPerFrame_pos
    obtain ⟨_, hdone⟩ := hall last (hlast ▸ Nat.lt_succ_self last)
    rw [hlast, cycled_concat]
    show ¬ (machine.cycled last).cycle.machine.status = .crashed
    rw [(status_cycle _).2, hdone]
    simp
  · obtain ⟨hresult, hmachine⟩ := frame_of_failure hplace hbefore hfailed
    obtain ⟨hstatus, haddress, -⟩ := wreck_of_error hfailed
    rw [hresult, hmachine, cycled_concat]
    refine ⟨iff_of_true hstatus ⟨crash, rfl⟩, fun other hother => ?_⟩
    obtain rfl := Except.error.inj hother
    exact haddress

section Operation

variable {machine : Machine} {operation : Operation}

/-- An operation that asks for cycles leaves a crashed machine exactly if its answer is a crash. -/
theorem status_of_works (hworks : operation.works = true) :
    (operation.apply machine).machine.status = .crashed ↔
      ∃ crash, (operation.apply machine).reply = .crashed crash := by
  cases operation with
  | cycle => exact (status_cycle machine).2.trans (exists_congr fun _ => reply_eq_crashed_iff.symm)
  | frame => exact (status_frame machine).1.trans (exists_congr fun _ => reply_eq_crashed_iff.symm)
  | _ => cases hworks

theorem reply_of_not_works (hworks : operation.works = false) (crash : Crash) :
    (operation.apply machine).reply ≠ .crashed crash := by
  cases operation with
  | cycle | frame => cases hworks
  | tick | speed hertz => simp [Operation.apply]
  | key number down =>
    simp only [Operation.apply]
    cases machine.setKey number down <;> simp

/-- A crash that a host is told leaves the machine crashed, at the address that the crash names. -/
theorem wreck_of_reply {crash : Crash}
    (hcrash : (operation.apply machine).reply = .crashed crash) :
    (operation.apply machine).machine.status = .crashed ∧
      crash.address = (operation.apply machine).machine.pc := by
  cases hworks : operation.works with
  | false => exact absurd hcrash (reply_of_not_works hworks crash)
  | true =>
    refine ⟨(status_of_works hworks).mpr ⟨crash, hcrash⟩, ?_⟩
    cases operation with
    | cycle => exact (wreck_of_error (reply_eq_crashed_iff.mp hcrash)).2.1
    | frame => exact (status_frame machine).2 crash (reply_eq_crashed_iff.mp hcrash)
    | _ => cases hworks

end Operation

/-! ## Wrecks -/

section Wreck

variable {machine : Machine}

theorem result_of_crashed (hcrashed : machine.status = .crashed) :
    machine.cycle.result = .error (machine.crash none .halted) := by
  rw [cycle_of_crashed hcrashed]
  rfl

theorem frame_of_crashed (hcrashed : machine.status = .crashed) :
    machine.frame.machine = machine ∧
      machine.frame.result = .error (machine.crash none .halted) := by
  have hcycle := result_of_crashed hcrashed
  obtain ⟨hresult, hmachine⟩ :=
    frame_of_failure machine.cyclesPerFrame_pos machine.succeeds_zero hcycle
  exact ⟨hmachine.trans (crash_of_crashed hcrashed hcycle).1, hresult⟩

/-- Nothing happens to a wreck but what its host does to it: every cycle and every frame is refused
at the place where it crashed. -/
theorem wreck_apply (hcrashed : machine.status = .crashed) (operation : Operation) :
    (operation.apply machine).machine =
        machine.idled 0 (if operation = .tick then 1 else 0) [operation] ∧
      (operation.works = true → ∃ again, (operation.apply machine).reply = .crashed again ∧
        again.toIncident = ⟨.halted, machine.pc, none⟩) := by
  cases hworks : operation.works with
  | false =>
    refine ⟨?_, nofun⟩
    rw [apply_of_not_works machine hworks, Operation.ticks_of_not_works hworks]
  | true =>
    cases operation with
    | cycle =>
      have hresult := result_of_crashed hcrashed
      exact ⟨(crash_of_crashed hcrashed hresult).1.trans machine.idled_nil.symm, fun _ =>
        ⟨_, reply_eq_crashed_iff.mpr hresult, rfl⟩⟩
    | frame =>
      obtain ⟨hmachine, hresult⟩ := frame_of_crashed hcrashed
      exact ⟨hmachine.trans machine.idled_nil.symm, fun _ =>
        ⟨_, reply_eq_crashed_iff.mpr hresult, rfl⟩⟩
    | _ => cases hworks

theorem wreck_after (hcrashed : machine.status = .crashed) (late : List Operation) :
    machine.after late = machine.idled 0 (late.count .tick) late ∧
      ∀ (place : Nat) (operation : Operation), late[place]? = some operation →
        operation.works = true → ∃ again, (machine.replies late)[place]? = some (.crashed again) ∧
          again.toIncident = ⟨.halted, machine.pc, none⟩ := by
  induction late generalizing machine with
  | nil => exact ⟨machine.idled_nil.symm, nofun⟩
  | cons operation rest ih =>
    obtain ⟨hmachine, hreply⟩ := wreck_apply hcrashed operation
    let next := machine.idled 0 (if operation = .tick then 1 else 0) [operation]
    have hnext : next.status = .crashed := hcrashed
    obtain ⟨hafter, hreplies⟩ := ih hnext
    rw [after, replies, hmachine]
    refine ⟨?_, fun place other hplace hworks => ?_⟩
    · rw [hafter, idled_idled]
      simp [List.count_cons, Nat.add_comm]
    · cases place with
      | zero =>
        obtain rfl := Option.some.inj hplace
        obtain ⟨again, hagain, hincident⟩ := hreply hworks
        exact ⟨again, congrArg some hagain, hincident⟩
      | succ place => exact hreplies place other hplace hworks

/-- The board of a wreck answers alike, because a wreck counts no cycles. -/
theorem wreck_board (hsound : machine.Sound) (hcrashed : machine.status = .crashed)
    (hroom : machine.cycles < 0x10000000000000000) (late : List Operation) :
    machine.board.run late = .ok (machine.replies late, (machine.after late).board) := by
  refine run_board hsound late ?_
  rw [(wreck_after hcrashed late).1]
  exact hroom

end Wreck

/-- An operation leaves a crashed machine exactly if the machine had crashed before, or the answer
is a crash. -/
theorem crashed_step (machine : Machine) (operation : Operation) :
    (operation.apply machine).machine.status = .crashed ↔
      machine.status = .crashed ∨ ∃ crash, (operation.apply machine).reply = .crashed crash := by
  cases hworks : operation.works with
  | false =>
    have hnone : ¬ ∃ crash, (operation.apply machine).reply = .crashed crash :=
      not_exists.mpr (reply_of_not_works hworks)
    rw [apply_of_not_works machine hworks, or_iff_left hnone]
    rfl
  | true =>
    rw [status_of_works hworks, iff_or_self]
    intro hcrashed
    obtain ⟨again, hagain, -⟩ := (wreck_apply hcrashed operation).2 hworks
    exact ⟨again, hagain⟩

/-- A machine has crashed after a history exactly if it had before, or one of the answers was a
crash. -/
theorem crashed_after (machine : Machine) (history : List Operation) :
    (machine.after history).status = .crashed ↔
      machine.status = .crashed ∨ ∃ crash, .crashed crash ∈ machine.replies history := by
  induction history generalizing machine with
  | nil => simp [replies]
  | cons operation rest ih =>
    rw [after, ih, crashed_step, or_assoc]
    simp only [replies, List.mem_cons, exists_or, eq_comm]

/-- After a start, the number of cycles is the number of those asked of a machine that had not
crashed, by themselves or in frames.  The machine is as it was loaded exactly as long as there was
none, and has crashed exactly if one of them failed.  Once the host has been told of a crash, the
machine changes only by ticks, keys and speeds, and refuses every cycle and every frame at the
address of that crash.  A board lives the same life, as long as cycles can be counted. -/
theorem life_cycle {program : Program} {settings : Settings} {hostKey : Keystream.Key}
    {start : Machine} (hboot : (boot program settings hostKey).result = .ok start)
    (operations : List Operation) :
    let machine := start.after operations
    let history := start.unroll operations
    (.frame ∉ history ∧ start.after history = machine) ∧
      machine.cycles = start.count live history ∧
      (machine.status = .programLoaded ↔ machine.cycles = 0) ∧
      (machine.status = .crashed ↔ ∃ crash, .crashed crash ∈ start.replies history) ∧
      (machine.cycles < 0x10000000000000000 →
        start.board.run operations = .ok (start.replies operations, machine.board) ∧
          start.board.run history = .ok (start.replies history, machine.board)) ∧
      ∀ (operation : Operation) (crash : Crash),
        (operation.apply machine).reply = .crashed crash →
        let wreck := (operation.apply machine).machine
        wreck.status = .crashed ∧
          (∀ late, wreck.after late = wreck.idled 0 (late.count .tick) late ∧
            ∀ (place : Nat) (other : Operation), late[place]? = some other →
              other.works = true → ∃ again, (wreck.replies late)[place]? = some (.crashed again) ∧
                again.toIncident = ⟨.halted, crash.address, none⟩) ∧
          (wreck.cycles < 0x10000000000000000 →
            machine.board.perform operation = .ok (.crashed crash, wreck.board) ∧
              ∀ late, wreck.board.run late =
                .ok (wreck.replies late, (wreck.after late).board)) := by
  intro machine history
  have hframe := frame_notMem_unroll start operations
  have hafter := after_unroll start operations
  have hfresh : start.cycles = 0 ∧ start.status = .programLoaded := by
    obtain ⟨-, -, -, rfl⟩ := boot_eq_ok_iff.mp hboot
    exact ⟨rfl, rfl⟩
  have hsound := sound_of_boot hboot
  refine ⟨⟨hframe, hafter⟩, ?_, ?_, ?_, fun hroom => ?_, fun operation crash hcrash => ?_⟩
  · have hcycles := cycles_after start hframe
    rw [hafter, hfresh.1, Nat.zero_add] at hcycles
    exact hcycles
  · exact kept_loaded.after (iff_of_true hfresh.2 hfresh.1) operations
  · have hcrashed := crashed_after start history
    rw [hafter, hfresh.2] at hcrashed
    exact hcrashed.trans (or_iff_right nofun)
  · have hboard := run_board hsound history
    rw [hafter] at hboard
    exact ⟨run_board hsound operations hroom, hboard hroom⟩
  · obtain ⟨hstatus, haddress⟩ := wreck_of_reply hcrash
    have hwreck : (operation.apply machine).machine.Sound :=
      (hsound.after operations).after [operation]
    rw [haddress]
    refine ⟨hstatus, wreck_after hstatus, fun hroom => ⟨?_, wreck_board hwreck hstatus hroom⟩⟩
    rw [perform_board (hsound.after operations) operation hroom, hcrash]

/-- A return to nowhere in the middle of a frame: three cycles have been counted, and the wreck
keeps its place while its timer runs out. -/
theorem life_cycle_frame_crash :
    let program : Program := ⟨[0x60, 0x02, 0xF0, 0x15, 0x00, 0xEE]⟩
    let start := loaded program {} (.ofSeed 0)
    let machine := start.after [.cycle]
    let wreck := (Operation.frame.apply machine).machine
    let late : List Operation := [.tick, .frame, .key 3 true, .tick, .cycle, .tick]
    (boot program {} (.ofSeed 0)).result = .ok start ∧ machine.cycles = 1 ∧
      (∃ crash, (Operation.frame.apply machine).reply = .crashed crash ∧
        crash.fault = .stackEmpty ∧ crash.address = 0x204) ∧
      (wreck.status = .crashed ∧ wreck.cycles = 3 ∧ wreck.timers = ⟨2, 0⟩) ∧
      ((wreck.after late).cycles = 3 ∧ (wreck.after late).timers = ⟨0, 0⟩ ∧
        ∃ again, (wreck.replies late)[4]? = some (.crashed again) ∧
          again.toIncident = ⟨.halted, 0x204, none⟩) ∧
      start.board.run [.cycle] = .ok (start.replies [.cycle], machine.board) ∧
      wreck.board.run late = .ok (wreck.replies late, (wreck.after late).board) := by
  intro program start machine wreck late
  have hboot : (boot program {} (.ofSeed 0)).result = .ok start :=
    boot_eq_ok_iff.mpr ⟨by decide, by decide, by decide, rfl⟩
  obtain ⟨hone, hplace, hreplies, hlive, hfault, hpc, hcycles, htimers⟩ :
      start.count live (start.unroll [.cycle]) = 1 ∧ 1 < machine.cyclesPerFrame.toNat ∧
        machine.replies (.replicate 1 .cycle) = [.updated false] ∧
        (machine.cycled 1).status ≠ .crashed ∧
        (machine.cycled 1).fault? = some .stackEmpty ∧ wreck.pc = 0x204 ∧ wreck.cycles = 3 ∧
        wreck.timers = ⟨2, 0⟩ := by
    decide +kernel
  have hbefore : machine.Succeeds 1 := by
    rw [succeeds_iff_replies, hreplies]
    simp
  obtain ⟨records, hcycle⟩ := cycle_of_fault hlive hfault
  obtain ⟨crash, hfailed, hcause⟩ :
      ∃ crash, (machine.cycled 1).cycle.result = .error crash ∧ crash.fault = .stackEmpty := by
    rw [hcycle]
    exact ⟨_, rfl, rfl⟩
  have hcrash : (Operation.frame.apply machine).reply = .crashed crash :=
    reply_eq_crashed_iff.mpr (frame_of_failure hplace hbefore hfailed).1
  have haddress : crash.address = 0x204 := (wreck_of_reply hcrash).2.trans hpc
  obtain ⟨-, hcount, -, -, hboard, hwrecked⟩ := life_cycle hboot [.cycle]
  have hcounted : machine.cycles = 1 := hcount.trans hone
  obtain ⟨hstatus, hrest, hwreck⟩ := hwrecked .frame crash hcrash
  obtain ⟨hafter, hanswers⟩ := hrest late
  obtain ⟨again, hagain, hincident⟩ := hanswers 4 .cycle rfl rfl
  rw [haddress] at hincident
  refine ⟨hboot, hcounted, ⟨crash, hcrash, hcause, haddress⟩, ⟨hstatus, hcycles, htimers⟩,
    ⟨?_, ?_, again, hagain, hincident⟩, (hboard ?_).1, (hwreck ?_).2 late⟩
  · show (Machine.after _ late).cycles = 3
    rw [hafter]
    exact (Nat.add_zero _).trans hcycles
  · show (Machine.after _ late).timers = ⟨0, 0⟩
    rw [hafter]
    show wreck.timers.lowered 3 = ⟨0, 0⟩
    rw [htimers]
    decide
  · show machine.cycles < _
    rw [hcounted]
    decide
  · show wreck.cycles < _
    rw [hcycles]
    decide

end Machine
end Chip8
