import Chip8.Proofs.Machine.Calls
import Chip8.Proofs.Machine.Rest

/-!
# The keys belong to the host

A key is pressed if the host has pressed it last.  Instructions look at the keys in three ways, and
nothing that a machine does moves them.

* `held` — whether a history leaves a key pressed.
* `isPressed_keypadAfter` — a key has the state that a history gave it last.
* `keypad_cycle`, `keypad_after` — no cycle moves a key, so the host's operations alone do.
* `Machine.Obeys` — the cycle goes by the keys that are held, in each of the three ways.
* `obeys_of_isPressed` — every cycle goes by the keypad.
* `keys_are_the_hosts` — so it goes by what the host did last, from a start on.
-/

namespace Chip8

/-- Whether a history leaves a key pressed that was not pressed before. -/
def held (history : List Operation) (key : Digit) : Bool :=
  (history.filterMap (Operation.write? key)).getLast?.getD false

/-- A key has the state that a history gave it last, or the state that it had. -/
theorem isPressed_keypadAfter (keypad : Keypad) (history : List Operation) (key : Digit) :
    (keypadAfter keypad history).isPressed key =
      (history.filterMap (Operation.write? key)).getLast?.getD (keypad.isPressed key) := by
  -- what the rest of the history does not give stands as the first operation leaves it
  induction history generalizing keypad with
  | nil => rfl
  | cons operation rest ih =>
    have hnext := isPressed_nextKeypad_eq keypad operation key
    rw [keypadAfter, List.foldl_cons, ← keypadAfter, ih, hnext, List.filterMap_cons]
    cases operation.write? key with
    | none => rfl
    | some down =>
      rw [List.getLast?_cons]
      cases (rest.filterMap (Operation.write? key)).getLast? <;> rfl

namespace Machine

/-- No cycle moves a key, whether it succeeds or fails. -/
theorem keypad_cycle (machine : Machine) : machine.cycle.machine.keypad = machine.keypad := by
  obtain ⟨instruction, -, heffect, -⟩ | ⟨crash, -, hsame | hsame⟩ := cycle_effect machine
  · exact (config_of_execute (execute_eq_ok_iff.mpr heffect)).1
  · rw [hsame]
    rfl
  · rw [hsame]
    rfl

theorem keypad_apply (machine : Machine) {operation : Operation} (hframe : operation ≠ .frame) :
    (operation.apply machine).machine.keypad = operation.nextKeypad machine.keypad := by
  cases hworks : operation.works with
  | false =>
    rw [apply_of_not_works machine hworks]
    rfl
  | true =>
    cases operation with
    | cycle => exact keypad_cycle machine
    | frame => exact absurd rfl hframe
    | _ => cases hworks

theorem keypad_after (machine : Machine) {history : List Operation} (hframe : .frame ∉ history) :
    (machine.after history).keypad = keypadAfter machine.keypad history := by
  induction history generalizing machine with
  | nil => rfl
  | cons operation rest ih =>
    rw [List.mem_cons, not_or] at hframe
    rw [after, ih _ hframe.2, keypad_apply machine (Ne.symm hframe.1)]
    rfl

/-- The next cycle goes by the keys that are held, whichever way it looks at them. -/
structure Obeys (machine : Machine) (held : Digit → Bool) : Prop where
  /-- One instruction skips if the key named by the low digit of its register is held. -/
  keyDown : ∀ x, machine.due = some (.skipIf (.keyDown x)) →
    machine.cycle.result = .ok false ∧ machine.cycle.machine.pc.toNat =
      machine.pc.toNat + if held (.low (machine.registers.get x)) then 4 else 2
  /-- Another one skips if it is not. -/
  keyUp : ∀ x, machine.due = some (.skipIf (.keyUp x)) →
    machine.cycle.result = .ok false ∧ machine.cycle.machine.pc.toNat =
      machine.pc.toNat + if held (.low (machine.registers.get x)) then 2 else 4
  /-- The third one goes on with the number of the lowest key that is held, and stays where it is if
  there is none. -/
  waitKey : ∀ x, machine.due = some (.waitKey x) →
    machine.cycle.result = .ok false ∧
      ((∃ key, held key = true ∧ (∀ lower < key, held lower = false) ∧
          machine.cycle.machine.status = .running ∧
          machine.cycle.machine.pc.toNat = machine.pc.toNat + 2 ∧
          machine.cycle.machine.registers = machine.registers.set x (UInt8.ofNat key.val) ∧
          (machine.cycle.machine.registers.get x).toNat = key.val) ∨
        ((∀ key, held key = false) ∧
          machine.cycle.machine.status = .waitingForKeypress ∧
          machine.cycle.machine.pc = machine.pc ∧
          machine.cycle.machine.registers = machine.registers))

section Cycle

variable {machine : Machine}

/-- A cycle that skips on a condition goes on by one word or by two. -/
theorem cycle_of_skipIf {condition : Condition}
    (hdue : machine.due = some (.skipIf condition)) :
    machine.cycle.result = .ok false ∧ machine.cycle.machine.pc.toNat =
      machine.pc.toNat + if machine.holds condition then 4 else 2 := by
  have hfetch : machine.pc.toNat + 2 ≤ memorySize := (due_eq_some_iff.mp hdue).2.1
  obtain ⟨heffect, hresult⟩ := effect_of_due hdue rfl
  refine ⟨hresult, ?_⟩
  have hgoOn : machine.beginCycle.goOn.pc.toNat = machine.pc.toNat + 2 :=
    toNat_pc_goOn (Nat.le_of_add_right_le hfetch)
  generalize machine.cycle.machine = next at heffect
  cases heffect with
  | skip hholds =>
    rw [if_pos (show machine.holds condition = true from hholds), toNat_pc_goOn (by omega), hgoOn]
  | noSkip hholds =>
    rw [if_neg (Bool.eq_false_iff.mp (show machine.holds condition = false from hholds)), hgoOn]

/-- Every cycle goes by the keypad. -/
theorem obeys_of_isPressed {held : Digit → Bool}
    (hheld : ∀ key, machine.keypad.isPressed key = held key) : machine.Obeys held where
  keyDown := by
    intro x hdue
    rw [← hheld]
    exact cycle_of_skipIf hdue
  keyUp := by
    intro x hdue
    obtain ⟨hresult, hpc⟩ := cycle_of_skipIf hdue
    refine ⟨hresult, hpc.trans ?_⟩
    rw [← hheld, holds]
    cases machine.keypad.isPressed (.low (machine.registers.get x)) <;> rfl
  waitKey := by
    intro x hdue
    simp only [← hheld]
    have hfetch : machine.pc.toNat + 2 ≤ memorySize := (due_eq_some_iff.mp hdue).2.1
    obtain ⟨hresult, ⟨key, hkey, hnext⟩ | ⟨hkey, hnext⟩⟩ := cycle_of_waitKey hdue
    · obtain ⟨hpressed, hlower⟩ := Keypad.firstPressed_eq_some_iff.mp hkey
      have hstored : machine.cycle.machine.registers.get x = UInt8.ofNat key.val := by
        rw [hnext]
        exact Registers.get_set_self ..
      refine ⟨hresult, .inl ⟨key, hpressed, hlower, ?_, ?_, ?_, ?_⟩⟩
      · rw [hnext]
      · rw [hnext]
        exact toNat_pc_goOn (Nat.le_of_add_right_le hfetch)
      · rw [hnext]
        rfl
      · rw [hstored, UInt8.toNat_ofNat']
        omega
    · rw [hnext]
      exact ⟨hresult, .inr ⟨Keypad.firstPressed_eq_none_iff.mp hkey, rfl, rfl, rfl⟩⟩

/-- A number that names no key is refused, and nothing else happens. -/
theorem apply_key_of_beyond (machine : Machine) {number : UInt8} (hbeyond : 16 ≤ number.toNat)
    (down : Bool) :
    (Operation.key number down).apply machine = ⟨machine, .refused (.invalidKey number), []⟩ := by
  have hset : machine.keypad.set number down = .error (.invalidKey number) :=
    if_neg (Nat.not_lt_of_le hbeyond)
  simp only [Operation.apply, setKey, hset]
  rfl

end Cycle

/-! ## Histories -/

/-- No key is moved while a frame lasts. -/
theorem write?_frameSteps (machine : Machine) (count : Nat) (key : Digit) :
    (machine.frameSteps count).filterMap (Operation.write? key) = [] := by
  induction count generalizing machine with
  | zero => rfl
  | succ count ih =>
    cases hresult : machine.cycle.result with
    | ok updated =>
      rw [frameSteps_of_ok count hresult]
      exact ih machine.cycle.machine
    | error crash =>
      rw [frameSteps_of_error count hresult]
      rfl

theorem write?_unroll (machine : Machine) (operations : List Operation) (key : Digit) :
    (machine.unroll operations).filterMap (Operation.write? key) =
      operations.filterMap (Operation.write? key) := by
  induction operations generalizing machine with
  | nil => rfl
  | cons operation rest ih =>
    have hsteps : (machine.steps operation).filterMap (Operation.write? key) =
        [operation].filterMap (Operation.write? key) := by
      cases operation with
      | frame => exact write?_frameSteps machine _ key
      | _ => rfl
    rw [unroll, List.filterMap_append, hsteps, ih, ← List.filterMap_append, List.singleton_append]

/-- From a start on, a key has the state that the host gave it last, at every place of a history in
which every frame is replaced by what it consists of; before that it is released.  The next cycle
goes by these states, whichever way it looks at the keys.  A number that names no key is refused,
and the machine stays as it is. -/
theorem keys_are_the_hosts :
    (∀ (program : Program) (settings : Settings) (hostKey : Keystream.Key) (start : Machine)
      (operations : List Operation), (boot program settings hostKey).result = .ok start →
      let history := start.unroll operations
      (.frame ∉ history ∧ start.after history = start.after operations ∧
          held history = held operations) ∧
        ∀ length : Nat,
          let machine := start.stage history length
          machine.keypad.isPressed = held (history.take length) ∧
            machine.Obeys (held (history.take length))) ∧
      ∀ (machine : Machine) (number : UInt8) (down : Bool), 16 ≤ number.toNat →
        (Operation.key number down).apply machine =
          ⟨machine, .refused (.invalidKey number), []⟩ := by
  constructor
  · intro program settings hostKey start operations hboot history
    have hframe := frame_notMem_unroll start operations
    have hheld : held history = held operations := by
      funext key
      rw [held, write?_unroll, held]
    refine ⟨⟨hframe, after_unroll start operations, hheld⟩, fun length => ?_⟩
    have hpressed : ∀ key, (start.stage history length).keypad.isPressed key =
        held (history.take length) key := by
      intro key
      have hearlier : .frame ∉ history.take length := fun hmem => hframe (List.mem_of_mem_take hmem)
      obtain ⟨-, -, -, rfl⟩ := boot_eq_ok_iff.mp hboot
      rw [stage, keypad_after _ hearlier, isPressed_keypadAfter, held]
      exact congrArg _ (Keypad.isPressed_released key)
    exact ⟨funext hpressed, obeys_of_isPressed hpressed⟩
  · intro machine number down hbeyond
    exact apply_key_of_beyond machine hbeyond down

/-- A key that is released and pressed again is held: the program skips to the instruction that asks
for any key, and gets the lower one of two.  A seventeenth key is refused. -/
theorem keys_are_the_hosts_pressed_again :
    let program : Program := ⟨[0x61, 0x13, 0xE1, 0x9E, 0x00, 0x00, 0xF2, 0x0A]⟩
    let start := loaded program {} (.ofSeed 0)
    let operations : List Operation := [.cycle, .key 3 true, .key 3 false, .key 9 true,
      .key 3 true, .cycle]
    let asks := start.stage operations 5
    let waits := start.stage operations 6
    (boot program {} (.ofSeed 0)).result = .ok start ∧
      (start.unroll operations = operations ∧
        asks.due = some (.skipIf (.keyDown (.ofNat 1))) ∧ waits.due = some (.waitKey (.ofNat 2))) ∧
      asks.cycle.machine.pc.toNat = asks.pc.toNat + 4 ∧
      (waits.cycle.machine.registers.get (.ofNat 2)).toNat = 3 ∧
      (Operation.key 16 true).apply waits = ⟨waits, .refused (.invalidKey 16), []⟩ := by
  intro program start operations asks waits
  have hboot : (boot program {} (.ofSeed 0)).result = .ok start :=
    boot_eq_ok_iff.mpr ⟨by decide, by decide, by decide, rfl⟩
  obtain ⟨hhistory, hasks, hwaits, hlow⟩ : start.unroll operations = operations ∧
      asks.due = some (.skipIf (.keyDown (.ofNat 1))) ∧
      waits.due = some (.waitKey (.ofNat 2)) ∧
      held (operations.take 5) (.low (asks.registers.get (.ofNat 1))) = true := by
    decide +kernel
  have hthree : held (operations.take 6) (.ofNat 3) = true ∧
      ∀ key, held (operations.take 6) key = true →
        (∀ lower < key, held (operations.take 6) lower = false) → key = .ofNat 3 := by
    decide +kernel
  obtain ⟨-, hstages⟩ := keys_are_the_hosts.1 program {} (.ofSeed 0) start operations hboot
  rw [hhistory] at hstages
  have hskips := ((hstages 5).2.keyDown (.ofNat 1) hasks).2
  rw [hlow] at hskips
  obtain ⟨-, ⟨key, hkey, hlower, -, -, -, hstored⟩ | ⟨hnone, -⟩⟩ :=
    (hstages 6).2.waitKey (.ofNat 2) hwaits
  · rw [hthree.2 key hkey hlower] at hstored
    exact ⟨hboot, ⟨hhistory, hasks, hwaits⟩, hskips, hstored,
      keys_are_the_hosts.2 waits 16 true (by decide)⟩
  · cases hthree.1.symm.trans (hnone (.ofNat 3))

end Machine
end Chip8
