import Chip8.Fault

/-!
# The call stack

Return addresses are kept in sixteen entries behind a pointer.  A pop moves the pointer only, so an
entry that is no longer in use keeps its value until a later push reaches it.

* `CallStack.push`, `CallStack.pop` — refused on a full and on an empty stack.
* `CallStack.held` — the view: the entries in use, oldest first.
* `held_push`, `held_pop` — through the view a push appends and a pop takes the last value away.
* `entry_of_push`, `entries_of_pop` — a push writes a single entry, and a pop none.
-/

namespace Chip8

abbrev stackSize : Nat := 16

/-- Return addresses of the calls that have not returned yet. -/
structure CallStack where
  /-- All entries, in use or not. -/
  entries : Vector UInt16 stackSize
  /-- The place of the next push, which is also the depth of the stack. -/
  pointer : Nat
deriving DecidableEq

namespace CallStack

def empty : CallStack := ⟨Vector.replicate stackSize 0, 0⟩

/-- The number of calls that have not returned yet. -/
def depth (stack : CallStack) : Nat := stack.pointer

/-- The entries in use, oldest first. -/
def held (stack : CallStack) : List UInt16 := stack.entries.toList.take stack.pointer

def push (stack : CallStack) (address : UInt16) : Except Fault CallStack :=
  if stack.pointer < stackSize then
    .ok ⟨stack.entries.setIfInBounds stack.pointer address, stack.pointer + 1⟩
  else .error .stackFull

/-- Gives the newest return address back; the entry itself is left as it is. -/
def pop (stack : CallStack) : Except Fault (UInt16 × CallStack) :=
  if stack.pointer = 0 then .error .stackEmpty
  else .ok (stack.entries[stack.pointer - 1]?.getD 0, ⟨stack.entries, stack.pointer - 1⟩)

theorem length_held {stack : CallStack} (hdepth : stack.pointer ≤ stackSize) :
    stack.held.length = stack.pointer := by
  simp [held, hdepth]

theorem pointer_of_push {stack after : CallStack} {address : UInt16}
    (hpush : stack.push address = .ok after) :
    stack.pointer < stackSize ∧ after.pointer = stack.pointer + 1 := by
  simp only [push] at hpush
  split at hpush
  · next hroom =>
    obtain rfl := Except.ok.inj hpush
    exact ⟨hroom, rfl⟩
  · cases hpush

theorem pointer_of_pop {stack after : CallStack} {address : UInt16}
    (hpop : stack.pop = .ok (address, after)) : stack.pointer = after.pointer + 1 := by
  simp only [pop] at hpop
  split at hpop
  · cases hpop
  · next hused =>
    obtain ⟨-, rfl⟩ := Prod.mk.inj (Except.ok.inj hpop)
    exact (Nat.sub_add_cancel (Nat.pos_of_ne_zero hused)).symm

/-- A push writes the entry at the old depth and no other. -/
theorem entry_of_push {stack after : CallStack} {address : UInt16}
    (hpush : stack.push address = .ok after) (place : Nat) :
    after.entries[place]? =
      if place = stack.pointer then some address else stack.entries[place]? := by
  obtain ⟨hroom, -⟩ := pointer_of_push hpush
  rw [push, if_pos hroom] at hpush
  obtain rfl := Except.ok.inj hpush
  show (stack.entries.setIfInBounds stack.pointer address)[place]? = _
  rw [Vector.getElem?_setIfInBounds]
  by_cases hplace : stack.pointer = place
  · rw [if_pos hplace, if_pos hplace.symm, if_pos hroom]
  · rw [if_neg hplace, if_neg (Ne.symm hplace)]

/-- A pop moves the pointer alone. -/
theorem entries_of_pop {stack after : CallStack} {address : UInt16}
    (hpop : stack.pop = .ok (address, after)) : after.entries = stack.entries := by
  simp only [pop] at hpop
  split at hpop
  · cases hpop
  · obtain ⟨-, rfl⟩ := Prod.mk.inj (Except.ok.inj hpop)
    rfl

/-- A push that succeeds appends to the entries in use. -/
theorem held_push {stack after : CallStack} {address : UInt16}
    (hpush : stack.push address = .ok after) : after.held = stack.held ++ [address] := by
  simp only [push] at hpush
  split at hpush
  · next hroom =>
    obtain rfl := Except.ok.inj hpush
    have hlength : stack.pointer < stack.entries.toList.length := by simpa using hroom
    simp [held, List.take_add_one, List.take_set_of_le, hroom]
  · simp at hpush

/-- A pop that succeeds gives the last of the entries in use and takes it away. -/
theorem held_pop {stack after : CallStack} {address : UInt16}
    (hdepth : stack.pointer ≤ stackSize) (hpop : stack.pop = .ok (address, after)) :
    stack.held = after.held ++ [address] := by
  simp only [pop] at hpop
  split at hpop
  · simp at hpop
  · next hused =>
    obtain ⟨rfl, rfl⟩ := Prod.mk.inj (Except.ok.inj hpop)
    obtain ⟨below, hbelow⟩ := Nat.exists_eq_succ_of_ne_zero hused
    have hinside : below < stackSize := by omega
    simp [held, hbelow, List.take_add_one, hinside]

end CallStack
end Chip8
