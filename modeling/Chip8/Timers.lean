/-!
# The timers

Two counters that the host lowers sixty times a second until they stand at zero.  A tone sounds
while the sound timer is above zero.

* `Timers.tick` — one step of both counters.
* `Timer`, `Timers.read` — the two counters by name, and their values.
* `toNat_read_tick` — a tick takes one away from either counter and stops at zero.
-/

namespace Chip8

/-- The number of timer ticks per second. -/
abbrev ticksPerSecond : UInt64 := 60

/-- The delay timer and the sound timer. -/
structure Timers where
  /-- The counter that programs can read. -/
  delay : UInt8
  /-- The counter that keeps the tone on. -/
  sound : UInt8
deriving DecidableEq, Repr

/-- The two timers. -/
inductive Timer where
  | delay
  | sound
deriving DecidableEq, Repr

namespace Timers

/-- The value of one timer. -/
def read (timers : Timers) : Timer → UInt8
  | .delay => timers.delay
  | .sound => timers.sound

def stopped : Timers := ⟨0, 0⟩

/-- One less, or zero. -/
def lower (value : UInt8) : UInt8 :=
  if value = 0 then 0 else value - 1

def tick (timers : Timers) : Timers :=
  ⟨lower timers.delay, lower timers.sound⟩

def soundActive (timers : Timers) : Bool :=
  0 < timers.sound

@[simp] theorem toNat_lower (value : UInt8) : (lower value).toNat = value.toNat - 1 := by
  simp only [lower]
  split
  · next h => simp [h]
  · next h =>
    have hne : value.toNat ≠ 0 := fun h0 => h (UInt8.toNat_inj.mp (by simpa using h0))
    exact UInt8.toNat_sub_of_le _ _ (UInt8.le_iff_toNat_le.mpr (Nat.pos_of_ne_zero hne))

@[simp] theorem toNat_read_tick (timers : Timers) (timer : Timer) :
    (timers.tick.read timer).toNat = (timers.read timer).toNat - 1 := by
  cases timer with
  | delay => exact toNat_lower timers.delay
  | sound => exact toNat_lower timers.sound

theorem read_stopped (timer : Timer) : stopped.read timer = 0 := by
  cases timer <;> rfl

/-- Timers that stand at the same numbers are the same. -/
theorem ext_read {a b : Timers} (hsame : ∀ timer, (a.read timer).toNat = (b.read timer).toNat) :
    a = b := by
  obtain ⟨delay, sound⟩ := a
  obtain ⟨otherDelay, otherSound⟩ := b
  congr 1
  · exact UInt8.toNat_inj.mp (hsame .delay)
  · exact UInt8.toNat_inj.mp (hsame .sound)

end Timers
end Chip8
