import Chip8.Proofs.Machine.Aside
import Chip8.Proofs.Machine.Boot

/-!
# Frames as cycles

A frame asks for as many cycles as belong to one tick, stops at the first that fails, and ticks if
none does.

* `Machine.cycled` — the machine after a number of cycles.
* `Machine.Succeeds` — none of a number of cycles fails.
* `resume_of_succeeds`, `resume_of_failure` — a run of cycles, up to the first that fails.
* `frame_of_succeeds`, `frame_of_failure` — where a frame ends in either case, and its answer.
* `frameSteps_of_succeeds`, `frameSteps_of_failure` — what a frame consists of in either case.
* `frame_begins` — the first thing in a frame is a cycle.
* `gather` — the answers to frames, put together from the answers to what they consist of.
* `after_setSpeed` — the speed does not matter to a history without frames.
* `frames_are_cycles` — a frame ends where its cycles and its tick lead, and answers what they
  answer together; so a history can be unrolled, and then the speed does not matter to it.
-/

namespace Chip8
namespace Machine

/-- The machine after a number of cycles. -/
def cycled (machine : Machine) (count : Nat) : Machine :=
  machine.after (.replicate count .cycle)

@[simp] theorem cycled_zero (machine : Machine) : machine.cycled 0 = machine := rfl

theorem cycled_succ (machine : Machine) (count : Nat) :
    machine.cycled (count + 1) = machine.cycle.machine.cycled count := rfl

theorem cycled_concat (machine : Machine) (count : Nat) :
    machine.cycled (count + 1) = (machine.cycled count).cycle.machine := by
  rw [cycled, List.replicate_succ', after_concat]
  rfl

/-- None of a number of cycles fails. -/
def Succeeds (machine : Machine) (count : Nat) : Prop :=
  ∀ place < count, ∃ updated, (machine.cycled place).cycle.result = .ok updated

theorem succeeds_zero (machine : Machine) : machine.Succeeds 0 :=
  fun _ hplace => absurd hplace (Nat.not_lt_zero _)

theorem succeeds_succ {machine : Machine} {count : Nat} :
    machine.Succeeds (count + 1) ↔
      (∃ updated, machine.cycle.result = .ok updated) ∧ machine.cycle.machine.Succeeds count :=
  Nat.forall_lt_succ_left

/-- Either none of a number of cycles fails, or there is a first that does. -/
theorem succeeds_or_failure (machine : Machine) (count : Nat) :
    machine.Succeeds count ∨ ∃ place < count, ∃ crash,
      machine.Succeeds place ∧ (machine.cycled place).cycle.result = .error crash := by
  induction count with
  | zero => exact .inl machine.succeeds_zero
  | succ count ih =>
    obtain hall | ⟨place, hplace, hfirst⟩ := ih
    · cases hresult : (machine.cycled count).cycle.result with
      | ok updated =>
        refine .inl fun place hplace => ?_
        obtain hbefore | rfl := Nat.lt_succ_iff_lt_or_eq.mp hplace
        · exact hall place hbefore
        · exact ⟨updated, hresult⟩
      | error crash => exact .inr ⟨count, Nat.lt_succ_self _, crash, hall, hresult⟩
    · exact .inr ⟨place, Nat.lt_succ_of_lt hplace, hfirst⟩

/-- The answers tell whether none of a number of cycles fails. -/
theorem succeeds_iff_replies {machine : Machine} {count : Nat} :
    machine.Succeeds count ↔ ∀ reply ∈ machine.replies (.replicate count .cycle),
      reply = .updated false ∨ reply = .updated true := by
  induction count generalizing machine with
  | zero => exact iff_of_true machine.succeeds_zero fun _ hreply => absurd hreply List.not_mem_nil
  | succ count ih =>
    rw [succeeds_succ, ih, List.replicate_succ, replies, List.forall_mem_cons]
    refine and_congr ?_ Iff.rfl
    show _ ↔ machine.cycle.toStep.reply = _ ∨ machine.cycle.toStep.reply = _
    rw [reply_eq_updated_iff, reply_eq_updated_iff, Bool.exists_bool]

/-! ## Runs of cycles -/

/-- A run none of whose cycles fails goes through all of them. -/
theorem resume_of_succeeds (count : Nat) (run : Run) (hrun : run.crash = none)
    (hall : run.machine.Succeeds count) :
    (resume count run).crash = none ∧ (resume count run).machine = run.machine.cycled count ∧
      (0 < (resume count run).updates ↔ 0 < run.updates ∨
        ∃ place < count, (run.machine.cycled place).cycle.result = .ok true) := by
  induction count generalizing run with
  | zero => simp [resume, hrun]
  | succ count ih =>
    obtain ⟨⟨updated, hresult⟩, hrest⟩ := succeeds_succ.mp hall
    obtain ⟨hcrash, hmachine, hupdates⟩ := ih (run.next updated) rfl hrest
    rw [resume_of_ok count hresult]
    refine ⟨hcrash, hmachine, hupdates.trans ?_⟩
    -- the report of the first cycle is in the count already
    have hfirst : 0 < (run.next updated).updates ↔ 0 < run.updates ∨
        (run.machine.cycled 0).cycle.result = .ok true := by
      cases updated <;> simp [Run.next, hresult]
    rw [hfirst, or_assoc, Nat.exists_lt_succ_left]
    rfl

/-- A run ends with the first of its cycles that fails. -/
theorem resume_of_failure {count place : Nat} (run : Run) {crash : Crash} (hplace : place < count)
    (hbefore : run.machine.Succeeds place)
    (hfailed : (run.machine.cycled place).cycle.result = .error crash) :
    (resume count run).crash = some crash ∧
      (resume count run).machine = run.machine.cycled (place + 1) := by
  induction place generalizing count run with
  | zero =>
    obtain ⟨count, rfl⟩ := Nat.exists_eq_succ_of_ne_zero (Nat.ne_of_gt hplace)
    rw [resume_of_error count hfailed]
    exact ⟨rfl, rfl⟩
  | succ place ih =>
    obtain ⟨count, rfl⟩ := Nat.exists_eq_succ_of_ne_zero (Nat.ne_zero_of_lt hplace)
    obtain ⟨⟨updated, hresult⟩, hrest⟩ := succeeds_succ.mp hbefore
    rw [resume_of_ok count hresult]
    exact ih (run.next updated) (Nat.lt_of_succ_lt_succ hplace) hrest hfailed

/-! ## Frames -/

section Frame

variable {machine : Machine}

theorem toNat_cyclesPerFrame (machine : Machine) :
    machine.cyclesPerFrame.toNat = max 1 (machine.speed.toNat / 60) := by
  have hquotient : (machine.speed / 60).toNat = machine.speed.toNat / 60 := UInt64.toNat_div ..
  have hone : (1 : UInt64).toNat = 1 := rfl
  show (if machine.speed / 60 ≤ 1 then 1 else machine.speed / 60).toNat = _
  split
  · next hsmall =>
    rw [UInt64.le_iff_toNat_le, hone, hquotient] at hsmall
    rw [hone]
    omega
  · next hlarge =>
    rw [UInt64.le_iff_toNat_le, hone, hquotient] at hlarge
    rw [hquotient]
    omega

theorem cyclesPerFrame_pos (machine : Machine) : 0 < machine.cyclesPerFrame.toNat := by
  rw [toNat_cyclesPerFrame]
  omega

theorem frame_of_succeeds (hall : machine.Succeeds machine.cyclesPerFrame.toNat) :
    ∃ updated, machine.frame.result = .ok updated ∧
      (updated = true ↔ ∃ place < machine.cyclesPerFrame.toNat,
        (machine.cycled place).cycle.result = .ok true) ∧
      machine.frame.machine = (machine.cycled machine.cyclesPerFrame.toNat).tick := by
  let run : Run := ⟨machine, 0, 0, none, #[]⟩
  let count := machine.cyclesPerFrame.toNat
  obtain ⟨hcrash, hmachine, hupdates⟩ := resume_of_succeeds count run rfl hall
  have hframe : machine.frame = ⟨(resume count run).machine.tick,
      .ok (decide (0 < (resume count run).updates)), (resume count run).records.toList⟩ := by
    simp only [frame, Machine.run, count, run, hcrash]
    rfl
  rw [hframe, hmachine]
  refine ⟨_, rfl, ?_, rfl⟩
  rw [decide_eq_true_iff, hupdates]
  exact or_iff_right (Nat.lt_irrefl 0)

theorem frame_of_failure {place : Nat} {crash : Crash}
    (hplace : place < machine.cyclesPerFrame.toNat) (hbefore : machine.Succeeds place)
    (hfailed : (machine.cycled place).cycle.result = .error crash) :
    machine.frame.result = .error crash ∧ machine.frame.machine = machine.cycled (place + 1) := by
  let run : Run := ⟨machine, 0, 0, none, #[]⟩
  let count := machine.cyclesPerFrame.toNat
  obtain ⟨hcrash, hmachine⟩ := resume_of_failure run hplace hbefore hfailed
  have hframe : machine.frame = ⟨(resume count run).machine, .error crash,
      (resume count run).records.toList⟩ := by
    simp only [frame, Machine.run, count, run, hcrash]
  rw [hframe, hmachine]
  exact ⟨rfl, rfl⟩

/-- A frame none of whose cycles fails consists of its cycles and a tick. -/
theorem frameSteps_of_succeeds {count : Nat} (hall : machine.Succeeds count) :
    machine.frameSteps count = List.replicate count .cycle ++ [.tick] := by
  induction count generalizing machine with
  | zero => rfl
  | succ count ih =>
    obtain ⟨⟨updated, hresult⟩, hrest⟩ := succeeds_succ.mp hall
    rw [frameSteps_of_ok count hresult]
    exact congrArg (.cycle :: ·) (ih hrest)

/-- A frame consists of its cycles up to the first that fails. -/
theorem frameSteps_of_failure {count place : Nat} {crash : Crash} (hplace : place < count)
    (hbefore : machine.Succeeds place)
    (hfailed : (machine.cycled place).cycle.result = .error crash) :
    machine.frameSteps count = List.replicate (place + 1) .cycle := by
  induction place generalizing count machine with
  | zero =>
    obtain ⟨count, rfl⟩ := Nat.exists_eq_succ_of_ne_zero (Nat.ne_of_gt hplace)
    exact frameSteps_of_error count hfailed
  | succ place ih =>
    obtain ⟨count, rfl⟩ := Nat.exists_eq_succ_of_ne_zero (Nat.ne_zero_of_lt hplace)
    obtain ⟨⟨updated, hresult⟩, hrest⟩ := succeeds_succ.mp hbefore
    rw [frameSteps_of_ok count hresult]
    exact congrArg (.cycle :: ·) (ih (Nat.lt_of_succ_lt_succ hplace) hrest hfailed)

/-- A frame begins with a cycle, and goes on from there. -/
theorem frame_begins (machine : Machine) : ∃ rest, machine.steps .frame = .cycle :: rest ∧
    machine.frame.machine = machine.cycle.machine.after rest := by
  obtain ⟨count, hcount⟩ := Nat.exists_eq_add_one.mpr machine.cyclesPerFrame_pos
  obtain ⟨rest, hrest⟩ : ∃ rest, machine.steps .frame = .cycle :: rest := by
    rw [steps, hcount, frameSteps]
    exact ⟨_, rfl⟩
  have hafter := after_steps machine .frame
  rw [hrest] at hafter
  exact ⟨rest, hrest, hafter.symm⟩

end Frame

/-! ## Answers -/

/-- The answer to a frame, put together from the answers to what it consists of, and the answers
behind them. -/
def gatherFrame (updated : Bool) : List Reply → Reply × List Reply
  | .updated now :: replies => gatherFrame (updated || now) replies
  | .crashed crash :: replies => (.crashed crash, replies)
  | _ :: replies => (.updated updated, replies)
  | [] => (.updated updated, [])

/-- The answers to a history, put together from the answers to what it consists of. -/
def gather : List Operation → List Reply → List Reply
  | .frame :: operations, replies =>
      (gatherFrame false replies).1 :: gather operations (gatherFrame false replies).2
  | _ :: operations, reply :: replies => reply :: gather operations replies
  | _, _ => []

/-- The answers to the cycles of a run make up what the run reports. -/
theorem gatherFrame_frameSteps (count : Nat) (run : Run) (behind : List Reply)
    (hrun : run.crash = none) :
    gatherFrame (0 < run.updates) (run.machine.replies (run.machine.frameSteps count) ++ behind) =
      match (resume count run).crash with
      | none => (.updated (0 < (resume count run).updates), behind)
      | some crash => (.crashed crash, behind) := by
  induction count generalizing run with
  | zero =>
    rw [resume, hrun]
    rfl
  | succ count ih =>
    cases hresult : run.machine.cycle.result with
    | ok updated =>
      have hreply : (Operation.cycle.apply run.machine).reply = .updated updated :=
        reply_eq_updated_iff.mpr hresult
      have hupdates : (decide (0 < run.updates) || updated) =
          decide (0 < (run.next updated).updates) := by
        cases updated <;> simp [Run.next]
      rw [resume_of_ok count hresult, frameSteps_of_ok count hresult]
      simp only [replies, hreply, List.cons_append, gatherFrame, hupdates]
      exact ih (run.next updated) rfl
    | error crash =>
      have hreply : (Operation.cycle.apply run.machine).reply = .crashed crash :=
        reply_eq_crashed_iff.mpr hresult
      rw [resume_of_error count hresult, frameSteps_of_error count hresult]
      simp only [replies, hreply, List.cons_append, gatherFrame]
      rfl

/-- The answers to what a frame consists of make up the answer to the frame. -/
theorem gatherFrame_steps (machine : Machine) (behind : List Reply) :
    gatherFrame false (machine.replies (machine.steps .frame) ++ behind) =
      ((Operation.frame.apply machine).reply, behind) := by
  let run : Run := ⟨machine, 0, 0, none, #[]⟩
  let count := machine.cyclesPerFrame.toNat
  have hgathered := gatherFrame_frameSteps count run behind rfl
  refine hgathered.trans ?_
  show _ = (machine.frame.toStep.reply, behind)
  cases hcrash : (resume count run).crash with
  | none =>
    simp only [frame, Machine.run, count, run, hcrash, Outcome.toStep]
    rfl
  | some crash => simp only [frame, Machine.run, count, run, hcrash, Outcome.toStep]

/-- The answers to what a history consists of make up the answers to the history. -/
theorem gather_unroll (machine : Machine) (operations : List Operation) :
    gather operations (machine.replies (machine.unroll operations)) =
      machine.replies operations := by
  induction operations generalizing machine with
  | nil => rfl
  | cons operation rest ih =>
    rw [unroll, replies_append, after_steps]
    cases operation with
    | frame =>
      rw [gather, gatherFrame_steps, ih]
      rfl
    | _ => exact congrArg (_ :: ·) (ih _)

/-! ## The speed -/

/-- The speed does not matter to a history without frames that leaves it alone. -/
theorem after_setSpeed (machine : Machine) (speed : UInt64) {operations : List Operation}
    (hfree : ∀ operation ∈ operations, operation = .cycle ∨ operation = .tick ∨
      ∃ number down, operation = .key number down) :
    (machine.setSpeed speed).after operations = (machine.after operations).setSpeed speed ∧
      (machine.setSpeed speed).replies operations = machine.replies operations := by
  induction operations generalizing machine with
  | nil => exact ⟨rfl, rfl⟩
  | cons operation rest ih =>
    obtain ⟨hfirst, hrest⟩ := List.forall_mem_cons.mp hfree
    have hother : operation ≠ .frame ∧ ∀ hertz, operation ≠ .speed hertz := by
      obtain rfl | rfl | ⟨number, down, rfl⟩ := hfirst <;> simp
    have hstep : (operation.apply (machine.setSpeed speed)).machine =
          (operation.apply machine).machine.setSpeed speed ∧
        (operation.apply (machine.setSpeed speed)).reply = (operation.apply machine).reply :=
      apply_recast rfl rfl (.inl hother.2) hother.1 fun _ => unseen_speed machine speed
    obtain ⟨hafter, hreplies⟩ := ih (operation.apply machine).machine hrest
    simp only [after, replies, hstep, hafter, hreplies, and_self]

/-- A frame none of whose cycles fails ends where they and a tick lead, and tells whether one of
them told that the screen may be new; otherwise it ends with the first cycle that fails, and with
its crash.  So a history leads to the same machine when every frame is replaced by its cycles and
its tick, and the answers to these make up its answers; and without frames it does not depend on
the speed. -/
theorem frames_are_cycles :
    (∀ machine : Machine,
      let count := max 1 (machine.speed.toNat / 60)
      (machine.Succeeds count →
        machine.steps .frame = List.replicate count .cycle ++ [.tick] ∧
          machine.frame.machine = (machine.cycled count).tick ∧
          ∃ updated, machine.frame.result = .ok updated ∧
            (updated = true ↔
              ∃ place < count, (machine.cycled place).cycle.result = .ok true)) ∧
      (¬ machine.Succeeds count →
        ∃ place < count, ∃ crash, machine.Succeeds place ∧
          (machine.cycled place).cycle.result = .error crash ∧
          machine.steps .frame = List.replicate (place + 1) .cycle ∧
          machine.frame.machine = machine.cycled (place + 1) ∧
          machine.frame.result = .error crash)) ∧
    (∀ (machine : Machine) (operations : List Operation),
      .frame ∉ machine.unroll operations ∧
        machine.after (machine.unroll operations) = machine.after operations ∧
        gather operations (machine.replies (machine.unroll operations)) =
          machine.replies operations) ∧
    ∀ (machine : Machine) (speed : UInt64) (operations : List Operation),
      (∀ operation ∈ operations, operation = .cycle ∨ operation = .tick ∨
        ∃ number down, operation = .key number down) →
      (machine.setSpeed speed).after operations = (machine.after operations).setSpeed speed ∧
        (machine.setSpeed speed).replies operations = machine.replies operations := by
  refine ⟨fun machine => ?_, fun machine operations => ?_, fun machine speed operations hfree => ?_⟩
  · rw [← toNat_cyclesPerFrame]
    refine ⟨fun hall => ?_, fun hfailing => ?_⟩
    · obtain ⟨updated, hresult, hupdated, hmachine⟩ := frame_of_succeeds hall
      exact ⟨frameSteps_of_succeeds hall, hmachine, updated, hresult, hupdated⟩
    · obtain hall | ⟨place, hplace, crash, hbefore, hfailed⟩ :=
        machine.succeeds_or_failure machine.cyclesPerFrame.toNat
      · exact absurd hall hfailing
      · obtain ⟨hresult, hmachine⟩ := frame_of_failure hplace hbefore hfailed
        exact ⟨place, hplace, crash, hbefore, hfailed,
          frameSteps_of_failure hplace hbefore hfailed, hmachine, hresult⟩
  · exact ⟨frame_notMem_unroll machine operations, after_unroll machine operations,
      gather_unroll machine operations⟩
  · exact after_setSpeed machine speed hfree

/-- Two cycles a frame end with the screen cleared and the tick; of three the last returns to
nowhere, so there is no tick. -/
theorem frames_are_cycles_cut_short :
    let program : Program := ⟨[0x60, 0x05, 0x00, 0xE0, 0x00, 0xEE]⟩
    let start := loaded program { speed := 120 } (.ofSeed 0)
    let fast := start.setSpeed 180
    let history : List Operation := [.cycle, .key 5 true, .tick, .cycle]
    (start.Succeeds 2 ∧ start.frame.result = .ok true ∧
        start.frame.machine = (start.cycled 2).tick) ∧
      (¬ fast.Succeeds 3 ∧ fast.frame.machine = fast.cycled 3 ∧
        ∃ crash, fast.frame.result = .error crash ∧ crash.fault = .stackEmpty) ∧
      (start.unroll [.frame, .speed 60, .frame] = [.cycle, .cycle, .tick, .speed 60, .cycle] ∧
        start.after [.cycle, .cycle, .tick, .speed 60, .cycle] =
          start.after [.frame, .speed 60, .frame]) ∧
      fast.after history = (start.after history).setSpeed 180 := by
  intro program start fast history
  obtain ⟨hframes, hunroll, hspeed⟩ := frames_are_cycles
  obtain ⟨hslowReplies, hfastReplies, hcleared, hlive, hreturn, hunrolled⟩ :
      start.replies (.replicate 2 .cycle) = [.updated false, .updated true] ∧
        fast.replies (.replicate 2 .cycle) = [.updated false, .updated true] ∧
        (Operation.cycle.apply (start.cycled 1)).reply = .updated true ∧
        (fast.cycled 2).status ≠ .crashed ∧ (fast.cycled 2).fault? = some .stackEmpty ∧
        start.unroll [.frame, .speed 60, .frame] = [.cycle, .cycle, .tick, .speed 60, .cycle] := by
    decide +kernel
  have hslow : start.Succeeds 2 := by
    rw [succeeds_iff_replies, hslowReplies]
    simp
  have hearly : fast.Succeeds 2 := by
    rw [succeeds_iff_replies, hfastReplies]
    simp
  have hlate : ¬ fast.Succeeds 3 := by
    intro hall
    obtain ⟨_, hdone⟩ := hall 2 (by decide)
    obtain ⟨records, hcycle⟩ := cycle_of_fault hlive hreturn
    rw [hcycle] at hdone
    cases hdone
  have htwo : max 1 (start.speed.toNat / 60) = 2 := by decide
  have hthree : max 1 (fast.speed.toNat / 60) = 3 := by decide
  obtain ⟨hwhole, -⟩ := hframes start
  obtain ⟨-, hcut⟩ := hframes fast
  rw [htwo] at hwhole
  rw [hthree] at hcut
  obtain ⟨-, hticked, updated, hresult, hupdated⟩ := hwhole hslow
  obtain rfl := hupdated.mpr ⟨1, by decide, reply_eq_updated_iff.mp hcleared⟩
  obtain ⟨place, hplace, crash, -, hfailed, -, hmachine, hcrash⟩ := hcut hlate
  obtain rfl : place = 2 := by
    refine Nat.le_antisymm (Nat.le_of_lt_succ hplace) (Nat.le_of_not_lt fun hbefore => ?_)
    obtain ⟨_, hdone⟩ := hearly place hbefore
    cases hdone.symm.trans hfailed
  have hfault := (crash_of_cycle hlive hfailed).1
  rw [hreturn] at hfault
  refine ⟨⟨hslow, hresult, hticked⟩, ⟨hlate, hmachine, crash, hcrash,
    (Option.some.inj hfault).symm⟩, ⟨hunrolled, ?_⟩, (hspeed start 180 history ?_).1⟩
  · rw [← hunrolled]
    exact (hunroll start [.frame, .speed 60, .frame]).2.1
  · simp [history]

end Machine
end Chip8
