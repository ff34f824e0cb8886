import Chip8.Proofs.InPlace.Agreement
import Chip8.Proofs.Machine.Rest

/-!
# Waiting for a key

A machine that waits for a key has the instruction that asks for it at its program counter, and
carries it out again with every cycle until a key is pressed.

* `Machine.Waits` — the machine waits for a key that goes into a register.
* `kept_waiting` — a machine whose status says that it waits does wait.
* `Waits.cycle_released`, `Waits.cycle_pressed` — one cycle without a key and with one.
* `Waits.after` — a history without keys leaves the machine at rest.
* `waiting_freezes` — all of this for every reachable machine, and for its board.
-/

namespace Chip8

/-- No key is pressed whenever a history asks for cycles. -/
def Quiet (keypad : Keypad) : List Operation → Prop
  | [] => True
  | operation :: rest =>
      (operation.works = true → ∀ key, keypad.isPressed key = false) ∧
        Quiet (operation.nextKeypad keypad) rest

instance decidableQuiet (keypad : Keypad) : (history : List Operation) →
    Decidable (Quiet keypad history)
  | [] => .isTrue trivial
  | operation :: rest =>
      haveI := decidableQuiet (operation.nextKeypad keypad) rest
      inferInstanceAs (Decidable ((_ → _) ∧ _))

namespace Machine

/-- A machine waits for a key, and the number of the key will go into a register. -/
structure Waits (machine : Machine) (x : Digit) : Prop where
  status_eq : machine.status = .waitingForKeypress
  fetches : machine.Fetches
  decode_eq : Instruction.decode machine.word = some (.waitKey x)

/-- A machine whose status says that it waits for a key does wait. -/
theorem kept_waiting :
    Kept fun machine => machine.status = .waitingForKeypress → ∃ x, machine.Waits x where
  cycle := by
    intro machine hkept hwaiting
    obtain ⟨-, hcycle⟩ | ⟨-, fault, records, -, hcycle⟩ |
        ⟨-, -, hfetch, instruction, next, records, hread, hexecute, hcycle⟩ := cycle_cases machine
    · rw [hcycle] at hwaiting
      cases hwaiting
    · rw [hcycle] at hwaiting
      cases hwaiting
    · rw [hcycle] at hwaiting ⊢
      obtain ⟨x, rfl, hrunning | rfl⟩ | ⟨hother, hsame⟩ := status_of_execute hexecute
      · cases hrunning.symm.trans hwaiting
      · exact ⟨x, rfl, hfetch, hread⟩
      · -- no other instruction stands where the machine has waited already
        rw [hsame] at hwaiting
        have hbefore : machine.status = .waitingForKeypress := by
          simp only [beginCycle] at hwaiting
          split at hwaiting
          · cases hwaiting
          · exact hwaiting
        obtain ⟨x, hwaits⟩ := hkept hbefore
        rw [hwaits.decode_eq] at hread
        exact absurd (Option.some.inj hread).symm (hother x)
  tick _ hkept hwaiting := (hkept hwaiting).imp fun _ hwaits =>
    ⟨hwaits.status_eq, hwaits.fetches, hwaits.decode_eq⟩
  key _ _ hkept hwaiting := (hkept hwaiting).imp fun _ hwaits =>
    ⟨hwaits.status_eq, hwaits.fetches, hwaits.decode_eq⟩
  speed _ _ hkept hwaiting := (hkept hwaiting).imp fun _ hwaits =>
    ⟨hwaits.status_eq, hwaits.fetches, hwaits.decode_eq⟩

theorem Reachable.waits {machine : Machine} (hreach : machine.Reachable)
    (hwaiting : machine.status = .waitingForKeypress) : ∃ x, machine.Waits x := by
  refine kept_waiting.of_reachable (fun program settings hostKey start hboot hstatus => ?_) hreach
    hwaiting
  obtain ⟨-, -, -, rfl⟩ := boot_eq_ok_iff.mp hboot
  cases hstatus

section Waits

variable {machine : Machine} {x : Digit}

theorem Waits.idled (hwaits : machine.Waits x) (attempts ticks : Nat)
    (history : List Operation) : (machine.idled attempts ticks history).Waits x :=
  ⟨hwaits.status_eq, hwaits.fetches, hwaits.decode_eq⟩

theorem Waits.due (hwaits : machine.Waits x) : machine.due = some (.waitKey x) := by
  have hlive : machine.status ≠ .crashed := by
    rw [hwaits.status_eq]
    decide
  exact due_eq_some_iff.mpr ⟨hlive, hwaits.fetches, hwaits.decode_eq⟩

/-- A cycle of a machine that waits carries the same instruction out again. -/
theorem Waits.effect (hwaits : machine.Waits x) :
    machine.cycle.result = .ok false ∧
      machine.beginCycle.Effect (.waitKey x) machine.cycle.machine :=
  (effect_of_due hwaits.due rfl).symm

/-- Without a key, a machine that waits counts the cycle and goes on waiting. -/
theorem Waits.cycle_released (hwaits : machine.Waits x)
    (hreleased : machine.keypad.firstPressed = none) :
    machine.cycle.machine = machine.idled 1 0 [] := by
  obtain ⟨-, heffect⟩ := hwaits.effect
  generalize machine.cycle.machine = next at heffect
  cases heffect with
  | resume hkey => cases hreleased.symm.trans hkey
  | wait hkey => simp [Machine.idled, beginCycle, hwaits.status_eq, speedAfter, keypadAfter]

/-- With a key, a machine that waits takes the number of the key and runs on. -/
theorem Waits.cycle_pressed (hwaits : machine.Waits x) {key : Digit}
    (hpressed : machine.keypad.firstPressed = some key) :
    machine.cycle.machine =
      { machine with
        cycles := machine.cycles + 1
        status := .running
        pc := machine.pc + 2
        registers := machine.registers.set x (UInt8.ofNat key.val) } := by
  obtain ⟨-, heffect⟩ := hwaits.effect
  generalize machine.cycle.machine = next at heffect
  cases heffect with
  | resume hkey =>
    obtain rfl := Option.some.inj (hpressed.symm.trans hkey)
    rfl
  | wait hkey => cases hpressed.symm.trans hkey

/-- Without a key, any number of cycles is counted. -/
theorem Waits.cycled (hwaits : machine.Waits x) (hreleased : machine.keypad.firstPressed = none)
    (count : Nat) : machine.cycled count = machine.idled count 0 [] := by
  induction count generalizing machine with
  | zero => exact machine.idled_nil.symm
  | succ count ih =>
    rw [cycled_succ, hwaits.cycle_released hreleased, ih (hwaits.idled 1 0 []) hreleased,
      idled_idled, Nat.add_comm]
    rfl

/-- Without a key, a frame counts its cycles and ticks. -/
theorem Waits.frame_released (hwaits : machine.Waits x)
    (hreleased : machine.keypad.firstPressed = none) :
    machine.frame.result = .ok false ∧
      machine.frame.machine = machine.idled (max 1 (machine.speed.toNat / 60)) 1 [] := by
  have hresult : ∀ place, (machine.cycled place).cycle.result = .ok false := by
    intro place
    rw [hwaits.cycled hreleased]
    exact (hwaits.idled place 0 []).effect.1
  have hall : machine.Succeeds machine.cyclesPerFrame.toNat := fun place _ => ⟨false, hresult place⟩
  obtain ⟨updated, hframe, hupdated, hmachine⟩ := frame_of_succeeds hall
  have hsame : updated = false := by
    refine Bool.eq_false_iff.mpr fun htrue => ?_
    obtain ⟨place, -, hnew⟩ := hupdated.mp htrue
    cases (hresult place).symm.trans hnew
  refine ⟨hsame ▸ hframe, ?_⟩
  rw [hmachine, hwaits.cycled hreleased, tick_idled, toNat_cyclesPerFrame]

/-- One operation without a key leaves a machine that waits at rest. -/
theorem Waits.apply (hwaits : machine.Waits x) {operation : Operation}
    (hquiet : operation.works = true → machine.keypad.firstPressed = none) :
    (operation.apply machine).machine =
        machine.idled (operation.attempts machine.speed) operation.ticks [operation] ∧
      (operation.works = true → (operation.apply machine).reply = .updated false) := by
  cases hworks : operation.works with
  | false =>
    refine ⟨?_, nofun⟩
    rw [apply_of_not_works machine hworks, Operation.attempts_of_not_works hworks]
  | true =>
    have hreleased := hquiet hworks
    cases operation with
    | cycle =>
      exact ⟨hwaits.cycle_released hreleased, fun _ => reply_eq_updated_iff.mpr hwaits.effect.1⟩
    | frame =>
      obtain ⟨hresult, hmachine⟩ := hwaits.frame_released hreleased
      exact ⟨hmachine, fun _ => reply_eq_updated_iff.mpr hresult⟩
    | _ => cases hworks

/-- A history without keys leaves a machine that waits at rest. -/
theorem Waits.after (hwaits : machine.Waits x) {history : List Operation}
    (hquiet : Quiet machine.keypad history) :
    machine.after history =
        machine.idled (attempted machine.speed history) (ticked history) history ∧
      ∀ (place : Nat) (operation : Operation), history[place]? = some operation →
        operation.works = true → (machine.replies history)[place]? = some (.updated false) := by
  induction history generalizing machine with
  | nil => exact ⟨machine.idled_nil.symm, nofun⟩
  | cons operation rest ih =>
    obtain ⟨hnow, hlater⟩ := hquiet
    obtain ⟨hmachine, hreply⟩ :=
      hwaits.apply fun hworks => Keypad.firstPressed_eq_none_iff.mpr (hnow hworks)
    obtain ⟨hafter, hreplies⟩ := ih (hwaits.idled _ _ [operation]) hlater
    rw [Machine.after, Machine.replies, hmachine]
    refine ⟨?_, fun place other hplace hworks => ?_⟩
    · rw [hafter, idled_idled]
      rfl
    · cases place with
      | zero =>
        obtain rfl := Option.some.inj hplace
        exact congrArg some (hreply hworks)
      | succ place => exact hreplies place other hplace hworks

end Waits

/-- A reachable machine whose status says that it waits for a key stands at the instruction that
asks for one, and its next cycle succeeds.  While its host presses no key when it asks for cycles,
nothing but the counts, the speed and the keys is new; the first cycle with a key, by itself or at
the beginning of a frame, puts the lowest key pressed into the register and goes on behind the
instruction.  A board does all of this alike, as long as cycles can be counted. -/
theorem waiting_freezes {machine : Machine} (hreach : machine.Reachable)
    (hwaiting : machine.status = .waitingForKeypress) :
    machine.pc.toNat ≤ 0xFFE ∧ machine.cycle.result = .ok false ∧
      ∃ x, Instruction.decode machine.word = some (.waitKey x) ∧
        ∀ history, Quiet machine.keypad history →
          let later := machine.after history
          later = machine.idled (attempted machine.speed history) (ticked history) history ∧
            (∀ (place : Nat) (operation : Operation), history[place]? = some operation →
              operation.works = true →
                (machine.replies history)[place]? = some (.updated false)) ∧
            (later.cycles < 0x10000000000000000 →
              machine.board.run history = .ok (machine.replies history, later.board)) ∧
            ∀ key, later.keypad.isPressed key = true →
              (∀ lower < key, later.keypad.isPressed lower = false) →
              later.cycle.result = .ok false ∧
                later.cycle.machine =
                  { later with
                    cycles := later.cycles + 1
                    status := .running
                    pc := machine.pc + 2
                    registers := machine.registers.set x (UInt8.ofNat key.val) } ∧
                (later.cycle.machine.cycles < 0x10000000000000000 →
                  Work.cycle.on later.board = (.done false, later.cycle.machine.board)) ∧
                (later.frame.machine.cycles < 0x10000000000000000 →
                  Work.frame.on later.board =
                    Work.ofExcept later.frame.result later.frame.machine.board) ∧
                ∃ rest, later.steps .frame = .cycle :: rest ∧
                  later.frame.machine = later.cycle.machine.after rest := by
  obtain ⟨x, hwaits⟩ := hreach.waits hwaiting
  have hfetch : machine.pc.toNat + 2 ≤ 0x1000 := hwaits.fetches
  refine ⟨by omega, hwaits.effect.1, x, hwaits.decode_eq, fun history hquiet => ?_⟩
  obtain ⟨hafter, hreplies⟩ := hwaits.after hquiet
  refine ⟨hafter, hreplies, run_board hreach.sound history, fun key hpressed hlower => ?_⟩
  have hlater : (machine.after history).Waits x := hafter ▸ hwaits.idled _ _ history
  have hsound := hreach.sound.after history
  refine ⟨hlater.effect.1, ?_, Work.cycle_apply_done hsound hlater.effect.1,
    Work.frame_apply hsound, frame_begins _⟩
  rw [hlater.cycle_pressed (Keypad.firstPressed_eq_some_iff.mpr ⟨hpressed, hlower⟩), hafter]
  rfl

/-- Two frames at different speeds, a tick and a key that comes and goes leave a machine waiting, and
its board; then the lower one of two keys goes into the register. -/
theorem waiting_freezes_two_frames :
    let program : Program := ⟨[0x61, 0x05, 0xF1, 0x15, 0xF0, 0x0A]⟩
    let start := loaded program {} (.ofSeed 0)
    let machine := start.after [.cycle, .cycle, .cycle]
    let history : List Operation := [.frame, .tick, .speed 60, .key 7 true, .key 7 false, .frame,
      .key 16 true, .cycle, .key 9 true, .key 3 true]
    let later := machine.after history
    (machine.Reachable ∧ machine.status = .waitingForKeypress ∧ Quiet machine.keypad history) ∧
      (later.cycles = 17 ∧ later.timers = ⟨2, 0⟩ ∧ later.pc = 0x204 ∧
        (machine.replies history)[5]? = some (.updated false)) ∧
      (later.cycle.result = .ok false ∧ later.cycle.machine.pc = 0x206 ∧
        later.cycle.machine.registers.get (.ofNat 0) = 3) ∧
      machine.board.run history = .ok (machine.replies history, later.board) ∧
      Work.cycle.on later.board = (.done false, later.cycle.machine.board) := by
  intro program start machine history later
  have hboot : (boot program {} (.ofSeed 0)).result = .ok start :=
    boot_eq_ok_iff.mpr ⟨by decide, by decide, by decide, rfl⟩
  have hreach : machine.Reachable :=
    ⟨program, {}, .ofSeed 0, start, [.cycle, .cycle, .cycle], hboot, rfl⟩
  obtain ⟨hwaiting, hread, hpc, hcycles, htimers, hspeed, hkeypad⟩ :
      machine.status = .waitingForKeypress ∧
        Instruction.decode machine.word = some (.waitKey (.ofNat 0)) ∧
        machine.pc = 0x204 ∧ machine.cycles = 3 ∧ machine.timers = ⟨5, 0⟩ ∧
        machine.speed = 720 ∧ machine.keypad = .released := by
    decide +kernel
  have hquiet : Quiet machine.keypad history := by
    rw [hkeypad]
    decide +kernel
  -- from here on, these facts are all that is known of the machine
  clear_value machine
  obtain ⟨-, -, x, hread', hrest⟩ := waiting_freezes hreach hwaiting
  obtain rfl : x = .ofNat 0 := Instruction.waitKey.inj (Option.some.inj (hread'.symm.trans hread))
  obtain ⟨hlater, hreplies, hboard, hkeys⟩ := hrest history hquiet
  have hpressed : later.keypad.isPressed (.ofNat 3) = true ∧
      ∀ lower < Digit.ofNat 3, later.keypad.isPressed lower = false := by
    have hkeys : later.keypad = keypadAfter machine.keypad history := by
      show (machine.after history).keypad = _
      rw [hlater]
      rfl
    rw [hkeys, hkeypad]
    decide +kernel
  obtain ⟨hresult, hnext, hcycled, -⟩ := hkeys (.ofNat 3) hpressed.1 hpressed.2
  have hcount : later.cycles = 17 := by
    rw [congrArg cycles hlater]
    show machine.cycles + attempted machine.speed history = 17
    rw [hcycles, hspeed]
    decide
  have hmore : later.cycle.machine.cycles = 18 := by
    rw [hnext]
    exact congrArg (· + 1) hcount
  refine ⟨⟨hreach, hwaiting, hquiet⟩, ⟨hcount, ?_, (congrArg pc hlater).trans hpc,
    hreplies 5 .frame rfl rfl⟩, ⟨hresult, ?_, ?_⟩, hboard ?_, hcycled ?_⟩
  · rw [congrArg timers hlater]
    show machine.timers.lowered (ticked history) = ⟨2, 0⟩
    rw [htimers]
    decide
  · rw [hnext]
    show machine.pc + 2 = 0x206
    rw [hpc]
    rfl
  · rw [hnext]
    exact (Registers.get_set ..).trans (if_pos rfl)
  · show later.cycles < _
    rw [hcount]
    decide
  · rw [hmore]
    decide

end Machine
end Chip8
