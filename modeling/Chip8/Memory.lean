import Chip8.Fault

/-!
# Memory

Memory is 4096 bytes with exact bounds: a range either lies wholly inside, or the access is refused
and nothing changes.  Addresses and lengths are natural numbers, so no sum wraps.

* `Memory.byte` — the view: the byte at an address, and zero outside memory.
* `Memory.read`, `Memory.readWord`, `Memory.write` — the accesses; a refused range names the first
  of its addresses that can be at fault, `max start 4096`.
* `read_eq`, `write_eq`, `readWord_eq` — an access succeeds exactly when its range lies inside.
* `byte_put`, `byte_put_inside`, `byte_put_outside` — after bytes have been put in place, the view
  shows them there and the old bytes everywhere else.
-/

namespace Chip8

abbrev memorySize : Nat := 4096

/-- The bytes of the machine's address space. -/
structure Memory where
  cells : Vector UInt8 memorySize
deriving DecidableEq

namespace Memory

def zero : Memory := ⟨Vector.replicate memorySize 0⟩

/-- The byte at an address; outside memory the view shows zero. -/
def byte (memory : Memory) (address : Nat) : UInt8 :=
  memory.cells[address]?.getD 0

/-- The number written by the bytes at an address and behind it, the more significant one first. -/
def word (memory : Memory) (address : Nat) : UInt16 :=
  UInt16.ofNat (256 * (memory.byte address).toNat + (memory.byte (address + 1)).toNat)

/-- The bytes of a range in the view. -/
def slice (memory : Memory) (start length : Nat) : List UInt8 :=
  (List.range length).map fun offset => memory.byte (start + offset)

/-- Puts bytes in place one after the other; bytes that would fall outside are dropped. -/
def put (memory : Memory) (start : Nat) : List UInt8 → Memory
  | [] => memory
  | value :: rest => put ⟨memory.cells.setIfInBounds start value⟩ (start + 1) rest

/-- Refuses a range that does not lie inside memory. -/
def checkRange (start length : Nat) : Except Fault Unit :=
  if start + length ≤ memorySize then .ok ()
  else .error (.addressOutOfBounds (max start memorySize))

/-- Reads a range; an empty range may start at the end of memory but not beyond. -/
def read (memory : Memory) (start length : Nat) : Except Fault (List UInt8) := do
  checkRange start length
  return memory.slice start length

/-- Reads the two bytes at an address as a word, the more significant byte first. -/
def readWord (memory : Memory) (start : Nat) : Except Fault UInt16 := do
  checkRange start 2
  return (memory.byte start).toUInt16 <<< 8 ||| (memory.byte (start + 1)).toUInt16

def write (memory : Memory) (start : Nat) (bytes : List UInt8) : Except Fault Memory := do
  checkRange start bytes.length
  return memory.put start bytes

/-! ## The view -/

@[simp] theorem byte_zero (address : Nat) : zero.byte address = 0 := by
  simp only [byte, zero, Vector.getElem?_replicate]
  split <;> rfl

/-- Two memories with the same view are equal. -/
theorem ext_byte {a b : Memory} (hview : ∀ address, a.byte address = b.byte address) : a = b := by
  obtain ⟨as⟩ := a
  obtain ⟨bs⟩ := b
  congr 1
  refine Vector.ext fun address haddress => ?_
  simpa [byte, Vector.getElem?_eq_getElem haddress] using hview address

@[simp] theorem length_slice (memory : Memory) (start length : Nat) :
    (memory.slice start length).length = length := by
  simp [slice]

theorem byte_put (memory : Memory) (start : Nat) (bytes : List UInt8)
    (hfits : start + bytes.length ≤ memorySize) (address : Nat) :
    (memory.put start bytes).byte address =
      if start ≤ address then bytes[address - start]?.getD (memory.byte address)
      else memory.byte address := by
  induction bytes generalizing memory start with
  | nil => simp [put]
  | cons value rest ih =>
      simp only [List.length_cons] at hfits
      rw [put, ih _ _ (by omega)]
      rcases Nat.lt_trichotomy address start with hlt | heq | hgt
      · simp [byte, Nat.ne_of_gt hlt, Nat.not_le_of_lt hlt,
          Nat.not_le_of_lt (Nat.lt_succ_of_lt hlt)]
      · subst heq
        have hinside : address < memorySize := by omega
        rw [if_neg (by omega), if_pos (by omega)]
        simp [byte, hinside]
      · have hoffset : address - start = address - (start + 1) + 1 := by omega
        rw [if_pos (by omega), if_pos (by omega), hoffset, List.getElem?_cons_succ]
        simp [byte, Nat.ne_of_lt hgt]

section Put

variable {start : Nat} {bytes : List UInt8} (hfits : start + bytes.length ≤ memorySize)

include hfits

/-- Bytes that have been put in place are found there. -/
theorem byte_put_inside (memory : Memory) {offset : Nat} (hoffset : offset < bytes.length) :
    bytes[offset]? = some ((memory.put start bytes).byte (start + offset)) := by
  rw [byte_put _ _ _ hfits, if_pos (Nat.le_add_right _ _), Nat.add_sub_cancel_left,
    List.getElem?_eq_getElem hoffset]
  rfl

theorem byte_put_outside {memory : Memory} {address : Nat}
    (houtside : ¬ (start ≤ address ∧ address < start + bytes.length)) :
    (memory.put start bytes).byte address = memory.byte address := by
  rw [byte_put _ _ _ hfits]
  split
  · rw [List.getElem?_eq_none (by omega)]
    rfl
  · rfl

end Put

theorem toNat_word (memory : Memory) (address : Nat) :
    (memory.word address).toNat =
      256 * (memory.byte address).toNat + (memory.byte (address + 1)).toNat := by
  have hhigh := (memory.byte address).toNat_lt
  have hlow := (memory.byte (address + 1)).toNat_lt
  rw [word, UInt16.toNat_ofNat']
  omega

/-- Shifting the first byte up and joining the second gives the number that they write. -/
theorem word_eq_shift (memory : Memory) (address : Nat) :
    (memory.byte address).toUInt16 <<< 8 ||| (memory.byte (address + 1)).toUInt16 =
      memory.word address := by
  have hhigh := (memory.byte address).toNat_lt
  have hlow := (memory.byte (address + 1)).toNat_lt
  have hshift : ((memory.byte address).toUInt16 <<< 8).toNat =
      (memory.byte address).toNat <<< 8 := by
    rw [UInt16.toNat_shiftLeft, UInt8.toNat_toUInt16]
    refine Nat.mod_eq_of_lt ?_
    rw [show (8 : UInt16).toNat % 16 = 8 from rfl, Nat.shiftLeft_eq]
    omega
  refine UInt16.toNat_inj.mp ?_
  rw [toNat_word, UInt16.toNat_or, hshift, UInt8.toNat_toUInt16,
    ← Nat.shiftLeft_add_eq_or_of_lt hlow, Nat.shiftLeft_eq]
  omega

/-! ## When an access succeeds -/

theorem read_eq (memory : Memory) (start length : Nat) :
    memory.read start length =
      if start + length ≤ memorySize then .ok (memory.slice start length)
      else .error (.addressOutOfBounds (max start memorySize)) := by
  simp only [read, checkRange]
  split <;> rfl

theorem write_eq (memory : Memory) (start : Nat) (bytes : List UInt8) :
    memory.write start bytes =
      if start + bytes.length ≤ memorySize then .ok (memory.put start bytes)
      else .error (.addressOutOfBounds (max start memorySize)) := by
  simp only [write, checkRange]
  split <;> rfl

theorem readWord_eq (memory : Memory) (start : Nat) :
    memory.readWord start =
      if start + 2 ≤ memorySize then .ok (memory.word start)
      else .error (.addressOutOfBounds (max start memorySize)) := by
  simp only [readWord, checkRange, word_eq_shift]
  split <;> rfl

theorem read_eq_ok_iff {memory : Memory} {start length : Nat} {bytes : List UInt8} :
    memory.read start length = .ok bytes
      ↔ start + length ≤ memorySize ∧ memory.slice start length = bytes := by
  simp only [read, checkRange]
  split
  · simp_all [bind, Except.bind, pure, Except.pure]
  · simp_all only [bind, Except.bind, reduceCtorEq, false_and]

theorem write_eq_ok_iff {memory after : Memory} {start : Nat} {bytes : List UInt8} :
    memory.write start bytes = .ok after
      ↔ start + bytes.length ≤ memorySize ∧ memory.put start bytes = after := by
  simp only [write, checkRange]
  split
  · simp_all [bind, Except.bind, pure, Except.pure]
  · simp_all only [bind, Except.bind, reduceCtorEq, false_and]

end Memory
end Chip8
