import Chip8.Proofs.Machine.Calls
import Chip8.Proofs.Machine.Frame

/-!
# The timers over a history

A timer stands at the value that it was last given less the ticks since then, or at zero.  Values
are given by one instruction for each timer; ticks are asked for by the host, or come at the end of
a frame none of whose cycles has failed.

* `Timer.setter` — the instruction that gives a timer its value.
* `Machine.Given` — an instruction of a history gives a timer a value.
* `count_tick_frame` — a frame ticks once if it succeeds, and not at all if it fails.
* `read_step`, `read_stage` — while a timer is not given a value, it is lowered by the ticks.
* `timers_count_down` — the law, from a start on, for both timers.
-/

namespace Chip8

/-- The instruction that gives a timer the value of a register. -/
def Timer.setter (x : Digit) : Timer → Instruction
  | delay => .setDelay x
  | sound => .setSound x

namespace Machine

/-! ## Ticks of frames -/

/-- A frame ticks once if it succeeds, and not at all if it fails. -/
theorem count_tick_frame (machine : Machine) :
    (machine.steps .frame).count .tick = if machine.frame.result.isOk then 1 else 0 := by
  obtain hall | ⟨place, hplace, crash, hbefore, hfailed⟩ :=
    machine.succeeds_or_failure machine.cyclesPerFrame.toNat
  · obtain ⟨updated, hresult, -⟩ := frame_of_succeeds hall
    rw [hresult, steps, frameSteps_of_succeeds hall, List.count_append, List.count_replicate]
    rfl
  · obtain ⟨hresult, -⟩ := frame_of_failure hplace hbefore hfailed
    rw [hresult, steps, frameSteps_of_failure hplace hbefore hfailed, List.count_replicate]
    rfl

/-! ## One operation -/

section Step

variable {machine : Machine} {timer : Timer} {x : Digit}

/-- The instruction that gives a timer a value is never refused. -/
theorem read_cycle_of_setter (hdue : machine.due = some (timer.setter x)) :
    machine.cycle.machine.timers.read timer = machine.registers.get x := by
  cases timer with
  | delay =>
    obtain ⟨heffect, -⟩ := effect_of_due hdue rfl
    generalize machine.cycle.machine = next at heffect
    cases heffect
    rfl
  | sound =>
    obtain ⟨heffect, -⟩ := effect_of_due hdue rfl
    generalize machine.cycle.machine = next at heffect
    cases heffect
    rfl

/-- No other cycle touches the timer. -/
theorem read_cycle_of_ne (hother : ∀ x, machine.due ≠ some (timer.setter x)) :
    machine.cycle.machine.timers.read timer = machine.timers.read timer := by
  obtain ⟨instruction, hdue, heffect, -⟩ | ⟨crash, -, hsame | hsame⟩ := cycle_effect machine
  · generalize machine.cycle.machine = next at heffect
    cases heffect with
    | setDelay =>
      cases timer with
      | delay => exact absurd hdue (hother _)
      | sound => rfl
    | setSound =>
      cases timer with
      | delay => rfl
      | sound => exact absurd hdue (hother _)
    | _ => rfl
  · rw [hsame]
    rfl
  · rw [hsame]
    rfl

/-- One operation that does not give a timer a value lowers it if it is a tick. -/
theorem read_step {operation : Operation} (hframe : operation ≠ .frame)
    (hother : operation = .cycle → ∀ x, machine.due ≠ some (timer.setter x)) :
    ((operation.apply machine).machine.timers.read timer).toNat =
      (machine.timers.read timer).toNat - [operation].count .tick := by
  cases operation with
  | cycle => exact congrArg UInt8.toNat (read_cycle_of_ne (hother rfl))
  | frame => exact absurd rfl hframe
  | tick => exact Timers.toNat_read_tick _ _
  | key number down =>
    simp only [Operation.apply, setKey]
    cases machine.keypad.set number down <;> rfl
  | speed hertz => rfl

/-- The instruction that reads the delay timer is never refused, and takes its value. -/
theorem cycle_of_readDelay (hdue : machine.due = some (.readDelay x)) :
    machine.cycle.result = .ok false ∧
      machine.cycle.machine.registers.get x = machine.timers.read .delay := by
  obtain ⟨heffect, hresult⟩ := effect_of_due hdue rfl
  refine ⟨hresult, ?_⟩
  generalize machine.cycle.machine = next at heffect
  cases heffect with
  | readDelay => exact Registers.get_set_self ..

end Step

/-! ## Histories -/

/-- At a place of a history an instruction is carried out that gives a timer a value. -/
def Given (timer : Timer) (start : Machine) (history : List Operation) (place : Nat)
    (value : UInt8) : Prop :=
  history[place]? = some .cycle ∧ ∃ x,
    (start.stage history place).due = some (timer.setter x) ∧
      (start.stage history place).registers.get x = value

section Stage

variable {timer : Timer} {start : Machine} {history : List Operation} {place : Nat} {value : UInt8}

theorem read_stage_of_given (hgiven : Given timer start history place value) :
    (start.stage history (place + 1)).timers.read timer = value := by
  obtain ⟨hcycle, x, hdue, rfl⟩ := hgiven
  rw [stage_of_getElem? start hcycle]
  exact read_cycle_of_setter hdue

/-- Over a stretch of a history in which a timer is not given a value, the ticks lower it. -/
theorem read_stage (hframe : .frame ∉ history) {early late : Nat} (horder : early ≤ late)
    (hlate : late ≤ history.length)
    (hfree : ∀ place < late, early ≤ place → ∀ value, ¬ Given timer start history place value) :
    ((start.stage history late).timers.read timer).toNat =
      ((start.stage history early).timers.read timer).toNat -
        ((history.take late).drop early).count .tick := by
  induction horder with
  | refl =>
    rw [List.drop_eq_nil_of_le (List.length_take_le _ _)]
    rfl
  | @step late horder ih =>
    have hlength : late < history.length := hlate
    have hother : history[late] ≠ .frame := fun hsame => hframe (hsame ▸ List.getElem_mem hlength)
    have hunset : history[late] = .cycle → ∀ x,
        (start.stage history late).due ≠ some (timer.setter x) := fun hcycle x hdue =>
      hfree late (Nat.lt_succ_self late) horder _
        ⟨List.getElem?_eq_some_iff.mpr ⟨hlength, hcycle⟩, x, hdue, rfl⟩
    have hbefore := ih (Nat.le_of_lt hlength)
      fun place hplace => hfree place (Nat.lt_succ_of_lt hplace)
    have htaken : early ≤ (history.take late).length := by
      rw [List.length_take_of_le (Nat.le_of_lt hlength)]
      exact horder
    rw [stage_succ start hlength, read_step hother hunset, hbefore, Nat.sub_sub,
      List.take_add_one, List.getElem?_eq_getElem hlength, List.drop_append_of_le_length htaken,
      List.count_append]
    rfl

end Stage

/-- At every point of a history, a timer stands at zero if no instruction has given it a value; and
otherwise at the value last given less the ticks since then, or at zero.  A frame ticks once if it
succeeds, and not at all if it fails.  The tone sounds exactly while the sound timer is above zero,
and the instruction that reads the delay timer takes the value that it then has. -/
theorem timers_count_down {program : Program} {settings : Settings} {hostKey : Keystream.Key}
    {start : Machine} (hboot : (boot program settings hostKey).result = .ok start)
    (operations : List Operation) :
    let history := start.unroll operations
    (.frame ∉ history ∧ start.after history = start.after operations) ∧
      (∀ machine : Machine,
        (machine.steps .frame).count .tick = if machine.frame.result.isOk then 1 else 0) ∧
      ∀ length ≤ history.length,
        let machine := start.stage history length
        (∀ timer : Timer,
          ((∀ place < length, ∀ value, ¬ Given timer start history place value) →
            machine.timers.read timer = 0) ∧
          ∀ place < length, ∀ value, Given timer start history place value →
            (∀ later < length, place < later → ∀ other, ¬ Given timer start history later other) →
            (machine.timers.read timer).toNat =
              value.toNat - ((history.take length).drop (place + 1)).count .tick) ∧
          (machine.timers.soundActive = true ↔ 0 < (machine.timers.read .sound).toNat) ∧
          ∀ x, history[length]? = some .cycle → machine.due = some (.readDelay x) →
            machine.cycle.result = .ok false ∧
              (start.stage history (length + 1)).registers.get x = machine.timers.read .delay := by
  intro history
  have hframe := frame_notMem_unroll start operations
  refine ⟨⟨hframe, after_unroll start operations⟩, count_tick_frame, fun length hlength => ?_⟩
  intro machine
  refine ⟨fun timer => ⟨fun hnever => ?_, fun place hplace value hgiven hlast => ?_⟩, ?_, ?_⟩
  · have hlowered := read_stage hframe (Nat.zero_le length) hlength fun place hbefore _ =>
      hnever place hbefore
    have hfresh : start.timers = .stopped := by
      obtain ⟨-, -, -, rfl⟩ := boot_eq_ok_iff.mp hboot
      rfl
    have hstart : (start.stage history 0).timers.read timer = 0 := by
      show start.timers.read timer = 0
      rw [hfresh, Timers.read_stopped]
    rw [hstart] at hlowered
    exact UInt8.toNat_inj.mp (hlowered.trans (Nat.zero_sub _))
  · rw [read_stage hframe hplace hlength fun later hlater hbehind => hlast later hlater hbehind,
      read_stage_of_given hgiven]
  · exact decide_eq_true_iff.trans UInt8.lt_iff_toNat_lt
  · intro x hcycle hdue
    obtain ⟨hresult, hregister⟩ := cycle_of_readDelay hdue
    refine ⟨hresult, ?_⟩
    rw [stage_of_getElem? start hcycle]
    exact hregister

/-- Two frames of one cycle lower the delay timer twice, and the sound timer, which is given its
value in the second, once; a frame that fails lowers neither. -/
theorem timers_count_down_failed_frame :
    let program : Program := ⟨[0x60, 0x05, 0xF0, 0x15, 0xF0, 0x18, 0xF2, 0x07, 0x00, 0xEE]⟩
    let settings : Settings := { speed := 60 }
    let start := loaded program settings (.ofSeed 0)
    let operations : List Operation := [.cycle, .frame, .frame, .speed 120, .frame]
    let history := start.unroll operations
    let machine := start.stage history 8
    (boot program settings (.ofSeed 0)).result = .ok start ∧
      history = [.cycle, .cycle, .tick, .cycle, .tick, .speed 120, .cycle, .cycle] ∧
      Given .delay start history 1 5 ∧ Given .sound start history 3 5 ∧
      machine.status = .crashed ∧ (machine.timers.read .delay).toNat = 3 ∧
      (machine.timers.read .sound).toNat = 4 ∧ machine.timers.soundActive = true ∧
      ((start.stage history 7).registers.get (.ofNat 2)).toNat = 3 := by
  intro program settings start operations history machine
  have hboot : (boot program settings (.ofSeed 0)).result = .ok start :=
    boot_eq_ok_iff.mpr ⟨by decide, by decide, by decide, rfl⟩
  let walked : List Operation :=
    [.cycle, .cycle, .tick, .cycle, .tick, .speed 120, .cycle, .cycle]
  obtain ⟨hhistory, hdelay, hsound, hbehindDelay, hbehindSound, hread, hcrashed⟩ :
      history = walked ∧
        ((start.stage walked 1).due = some (.setDelay (.ofNat 0)) ∧
          (start.stage walked 1).registers.get (.ofNat 0) = 5) ∧
        ((start.stage walked 3).due = some (.setSound (.ofNat 0)) ∧
          (start.stage walked 3).registers.get (.ofNat 0) = 5) ∧
        (∀ later < 8, 1 < later → (start.stage walked later).due ∈
          [some (.setSound (.ofNat 0)), some (.readDelay (.ofNat 2)), some .ret]) ∧
        (∀ later < 8, 3 < later → (start.stage walked later).due ∈
          [some (.readDelay (.ofNat 2)), some .ret]) ∧
        (start.stage walked 6).due = some (.readDelay (.ofNat 2)) ∧
        (start.stage walked 8).status = .crashed := by
    decide +kernel
  rw [← hhistory] at hdelay hsound hbehindDelay hbehindSound hread hcrashed
  have hlength : ∀ length ≤ 8, length ≤ history.length := by
    rw [hhistory]
    exact fun _ hle => hle
  have hgivenDelay : Given .delay start history 1 5 := ⟨congrArg (·[1]?) hhistory, _, hdelay⟩
  have hgivenSound : Given .sound start history 3 5 := ⟨congrArg (·[3]?) hhistory, _, hsound⟩
  obtain ⟨-, -, hlaw⟩ := timers_count_down hboot operations
  -- the delay timer, wherever the law is asked behind the instruction that gave it its value
  have hcount : ∀ length ≤ 8, 1 < length →
      ((start.stage history length).timers.read .delay).toNat =
        5 - ((history.take length).drop 2).count .tick := by
    intro length hle hgone
    refine ((hlaw length (hlength length hle)).1 .delay).2 1 hgone 5 hgivenDelay ?_
    rintro later hlater hbehind other ⟨-, x, hdue, -⟩
    have hmember := hbehindDelay later (Nat.lt_of_lt_of_le hlater hle) hbehind
    rw [hdue] at hmember
    simp [Timer.setter] at hmember
  obtain ⟨hend, hactive, -⟩ := hlaw 8 (hlength 8 (Nat.le_refl 8))
  have hfour : (machine.timers.read .sound).toNat = 4 := by
    refine ((hend .sound).2 3 (by decide) 5 hgivenSound ?_).trans ?_
    · rintro later hlater hbehind other ⟨-, x, hdue, -⟩
      have hmember := hbehindSound later hlater hbehind
      rw [hdue] at hmember
      simp [Timer.setter] at hmember
    · rw [show start.unroll operations = _ from hhistory]
      rfl
  obtain ⟨-, -, htaken⟩ := hlaw 6 (hlength 6 (by decide))
  obtain ⟨-, hregister⟩ := htaken _ (congrArg (·[6]?) hhistory) hread
  refine ⟨hboot, hhistory, hgivenDelay, hgivenSound, hcrashed, ?_, hfour, ?_, ?_⟩
  · rw [hcount 8 (by decide) (by decide), hhistory]
    rfl
  · refine hactive.mpr ?_
    show 0 < (machine.timers.read .sound).toNat
    rw [hfour]
    decide
  · refine (congrArg UInt8.toNat hregister).trans ?_
    rw [hcount 6 (by decide) (by decide), hhistory]
    rfl

end Machine
end Chip8
