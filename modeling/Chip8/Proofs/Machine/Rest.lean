import Chip8.Proofs.Machine.Frame

/-!
# Machines at rest

While a machine waits for a key, and after it has crashed, a host can still go through a whole
history with it.  All that comes of it are counts, and what the host itself sets.

* `Timers.lowered` — the timers after a number of ticks.
* `Operation.works` — the operations that ask for cycles.
* `Operation.write?` — what an operation does to one key.
* `speedAfter`, `keypadAfter` — what a history makes of the speed and of the keys.
* `attempted`, `ticked` — how many cycles and ticks a history asks for.
* `Machine.idled` — a machine at rest after a history.
-/

namespace Chip8

namespace Timers

/-- The timers after a number of ticks; both stop at zero. -/
def lowered (timers : Timers) (count : Nat) : Timers :=
  ⟨UInt8.ofNat (timers.delay.toNat - count), UInt8.ofNat (timers.sound.toNat - count)⟩

@[simp] theorem lowered_zero (timers : Timers) : timers.lowered 0 = timers := by
  simp [lowered]

@[simp] theorem toNat_read_lowered (timers : Timers) (count : Nat) (timer : Timer) :
    ((timers.lowered count).read timer).toNat = (timers.read timer).toNat - count := by
  have hlowered : (timers.lowered count).read timer =
      UInt8.ofNat ((timers.read timer).toNat - count) := by
    cases timer <;> rfl
  have hsmall := (timers.read timer).toNat_lt
  rw [hlowered, UInt8.toNat_ofNat']
  omega

theorem lowered_lowered (timers : Timers) (early late : Nat) :
    (timers.lowered early).lowered late = timers.lowered (early + late) :=
  ext_read fun timer => by simp [Nat.sub_sub]

theorem tick_eq_lowered (timers : Timers) : timers.tick = timers.lowered 1 :=
  ext_read fun timer => by simp

end Timers

namespace Operation

/-- Whether an operation asks for cycles. -/
def works : Operation → Bool
  | cycle | frame => true
  | _ => false

/-- The number of cycles that an operation asks for. -/
def attempts (hertz : UInt64) : Operation → Nat
  | cycle => 1
  | frame => max 1 (hertz.toNat / 60)
  | _ => 0

/-- The number of ticks that an operation asks for. -/
def ticks : Operation → Nat
  | frame | tick => 1
  | _ => 0

theorem attempts_of_not_works {operation : Operation} (hworks : operation.works = false)
    (hertz : UInt64) : operation.attempts hertz = 0 := by
  cases operation with
  | cycle | frame => cases hworks
  | _ => rfl

theorem ticks_of_not_works {operation : Operation} (hworks : operation.works = false) :
    operation.ticks = if operation = .tick then 1 else 0 := by
  cases operation with
  | cycle | frame => cases hworks
  | _ => rfl

/-- The speed after an operation. -/
def nextSpeed (hertz : UInt64) : Operation → UInt64
  | speed next => next
  | _ => hertz

/-- The keys after an operation; a number that names no key moves none. -/
def nextKeypad (keypad : Keypad) : Operation → Keypad
  | key number down =>
      match keypad.set number down with
      | .ok next => next
      | .error _ => keypad
  | _ => keypad

/-- What an operation does to a key: whether it leaves it pressed, if it is about that key. -/
def write? (which : Digit) : Operation → Option Bool
  | key number down => if number.toNat = which.val then some down else none
  | _ => none

end Operation

/-- A key has the state that an operation gives it, or the state that it had. -/
theorem isPressed_nextKeypad_eq (keypad : Keypad) (operation : Operation) (key : Digit) :
    (operation.nextKeypad keypad).isPressed key =
      (operation.write? key).getD (keypad.isPressed key) := by
  cases operation with
  | key number down =>
    simp only [Operation.nextKeypad, Operation.write?]
    cases hset : keypad.set number down with
    | ok next =>
      simp only [Keypad.isPressed_set hset]
      split <;> rfl
    | error fault =>
      -- a number that is refused is beyond every key
      have hbeyond : number.toNat ≠ key.val := by
        intro hsame
        have hsmall := key.isLt
        rw [Keypad.set, if_pos (by omega)] at hset
        cases hset
      rw [if_neg hbeyond]
      rfl
  | _ => rfl

/-- The speed after a history. -/
def speedAfter (hertz : UInt64) (history : List Operation) : UInt64 :=
  history.foldl Operation.nextSpeed hertz

/-- The keys after a history. -/
def keypadAfter (keypad : Keypad) (history : List Operation) : Keypad :=
  history.foldl Operation.nextKeypad keypad

/-- The number of cycles that a history asks for, if none of them fails. -/
def attempted (hertz : UInt64) : List Operation → Nat
  | [] => 0
  | operation :: rest => operation.attempts hertz + attempted (operation.nextSpeed hertz) rest

/-- The number of ticks that a history asks for, if no cycle fails. -/
def ticked : List Operation → Nat
  | [] => 0
  | operation :: rest => operation.ticks + ticked rest

namespace Machine

/-- A machine that only counts cycles and lowers its timers, while its host goes through a
history. -/
def idled (machine : Machine) (attempts ticks : Nat) (history : List Operation) : Machine :=
  { machine with
    cycles := machine.cycles + attempts
    timers := machine.timers.lowered ticks
    speed := speedAfter machine.speed history
    keypad := keypadAfter machine.keypad history }

theorem idled_nil (machine : Machine) : machine.idled 0 0 [] = machine := by
  simp [idled, speedAfter, keypadAfter]

/-- Two stretches of rest are one. -/
theorem idled_idled (machine : Machine) (attempts more ticks later : Nat)
    (early late : List Operation) :
    (machine.idled attempts ticks early).idled more later late =
      machine.idled (attempts + more) (ticks + later) (early ++ late) := by
  simp [idled, Timers.lowered_lowered, speedAfter, keypadAfter, Nat.add_assoc]

theorem tick_idled (machine : Machine) (attempts ticks : Nat) (history : List Operation) :
    (machine.idled attempts ticks history).tick = machine.idled attempts (ticks + 1) history := by
  simp [idled, tick, Timers.tick_eq_lowered, Timers.lowered_lowered]

/-- What a host does without asking for cycles is the same to every machine. -/
theorem apply_of_not_works (machine : Machine) {operation : Operation}
    (hworks : operation.works = false) :
    (operation.apply machine).machine = machine.idled 0 operation.ticks [operation] := by
  cases operation with
  | cycle | frame => cases hworks
  | tick =>
    have htick := tick_idled machine 0 0 []
    rw [idled_nil] at htick
    exact htick
  | key number down =>
    simp only [Operation.apply, setKey, idled, Operation.ticks, Timers.lowered_zero, keypadAfter,
      List.foldl, Operation.nextKeypad]
    cases machine.keypad.set number down <;> rfl
  | speed hertz =>
    simp only [Operation.apply, setSpeed, idled, Operation.ticks, Timers.lowered_zero]
    rfl

end Machine
end Chip8
