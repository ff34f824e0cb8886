import Chip8.Digit
import Chip8.Fault

/-!
# The keypad

Sixteen keys, each pressed or released.  Only the host moves them; programs ask for one key by the
low digit of a register, or for the lowest key that is pressed.

* `Keypad.isPressed`, `Keypad.firstPressed` — what programs can ask.
* `Keypad.set` — what the host can do; a key number beyond the keypad is refused.
* `firstPressed_eq_some_iff`, `firstPressed_eq_none_iff` — the key found is the least pressed one.
-/

namespace Chip8

/-- The state of the keys. -/
structure Keypad where
  keys : Vector Bool 16
deriving DecidableEq

namespace Keypad

def released : Keypad := ⟨Vector.replicate 16 false⟩

def isPressed (keypad : Keypad) (key : Digit) : Bool :=
  keypad.keys[key.val]?.getD false

def set (keypad : Keypad) (key : UInt8) (down : Bool) : Except Fault Keypad :=
  if key.toNat < 16 then .ok ⟨keypad.keys.setIfInBounds key.toNat down⟩
  else .error (.invalidKey key)

/-- The lowest key that is pressed. -/
def firstPressed (keypad : Keypad) : Option Digit :=
  (List.finRange 16).find? keypad.isPressed

@[simp] theorem isPressed_released (key : Digit) : released.isPressed key = false := by
  simp [isPressed, released]

/-- A key has the state it was last given. -/
theorem isPressed_set {keypad after : Keypad} {key : UInt8} {down : Bool}
    (hset : keypad.set key down = .ok after) (other : Digit) :
    after.isPressed other = if key.toNat = other.val then down else keypad.isPressed other := by
  simp only [set] at hset
  split at hset
  · obtain rfl := Except.ok.inj hset
    by_cases hkey : key.toNat = other.val
    · simp [isPressed, hkey]
    · simp [isPressed, hkey]
  · simp at hset

theorem firstPressed_eq_none_iff {keypad : Keypad} :
    keypad.firstPressed = none ↔ ∀ key, keypad.isPressed key = false := by
  simp [firstPressed, List.find?_eq_none]

/-- The key that is found is pressed, and no key below it is. -/
theorem firstPressed_eq_some_iff {keypad : Keypad} {key : Digit} :
    keypad.firstPressed = some key
      ↔ keypad.isPressed key = true ∧ ∀ lower < key, keypad.isPressed lower = false := by
  simp only [firstPressed, List.find?_eq_some_iff_getElem, List.length_finRange,
    List.getElem_finRange, Bool.not_eq_true', Fin.cast_mk]
  constructor
  · rintro ⟨hpressed, place, hplace, rfl, hlower⟩
    exact ⟨hpressed, fun lower hlt => hlower lower.val hlt⟩
  · rintro ⟨hpressed, hlower⟩
    exact ⟨hpressed, key.val, key.isLt, rfl, fun place hplace => hlower ⟨place, by omega⟩ hplace⟩

end Keypad
end Chip8
