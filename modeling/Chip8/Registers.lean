import Chip8.Digit

/-!
# The variable registers

Sixteen bytes named by a digit.  The last of them doubles as the flag of arithmetic and drawing.

* `Registers.get`, `Registers.set` — one register.
* `Registers.upTo`, `Registers.load` — the block from the first register on, as it is moved between
  registers and memory.
* `get_set`, `get_load` — what a register holds after either kind of write.
-/

namespace Chip8

/-- The variable registers `V0` to `VF`. -/
structure Registers where
  cells : Vector UInt8 16
deriving DecidableEq

namespace Registers

/-- The register that arithmetic and drawing report through. -/
def flag : Digit := .ofNat 0xF

def zero : Registers := ⟨Vector.replicate 16 0⟩

def get (registers : Registers) (x : Digit) : UInt8 :=
  registers.cells[x.val]?.getD 0

def set (registers : Registers) (x : Digit) (value : UInt8) : Registers :=
  ⟨registers.cells.setIfInBounds x.val value⟩

/-- The values of the registers from the first up to and including `x`. -/
def upTo (registers : Registers) (x : Digit) : List UInt8 :=
  registers.cells.toList.take (x.val + 1)

/-- Fills the registers from the first on; registers beyond the last byte are left as they are. -/
def load (registers : Registers) (bytes : List UInt8) : Registers :=
  ⟨Vector.ofFn fun x => bytes[x]?.getD (registers.get x)⟩

@[simp] theorem get_zero (x : Digit) : zero.get x = 0 := by
  simp [get, zero]

theorem get_set (registers : Registers) (x y : Digit) (value : UInt8) :
    (registers.set x value).get y = if x = y then value else registers.get y := by
  by_cases hsame : x = y
  · simp [get, set, hsame]
  · simp [get, set, hsame, Fin.val_ne_of_ne hsame]

@[simp] theorem get_set_self (registers : Registers) (x : Digit) (value : UInt8) :
    (registers.set x value).get x = value :=
  (get_set ..).trans (if_pos rfl)

theorem get_load (registers : Registers) (bytes : List UInt8) (x : Digit) :
    (registers.load bytes).get x = bytes[x.val]?.getD (registers.get x) := by
  simp [get, load]

@[simp] theorem length_upTo (registers : Registers) (x : Digit) :
    (registers.upTo x).length = x.val + 1 := by
  simp only [upTo, List.length_take, Vector.length_toList]
  omega

/-- Registers with the same values are the same. -/
theorem ext_get {a b : Registers} (hview : ∀ x, a.get x = b.get x) : a = b := by
  obtain ⟨as⟩ := a
  obtain ⟨bs⟩ := b
  congr 1
  refine Vector.ext fun x hx => ?_
  simpa [get, Vector.getElem?_eq_getElem hx] using hview ⟨x, hx⟩

end Registers
end Chip8
