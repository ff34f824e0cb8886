/-!
# The screen

A screen of 64 by 32 pixels, each on or off, with column 0 at the left and row 0 at the top.  A row
is kept as one word whose most significant bit is column 0.

* `Screen.pixel` — the view: whether a pixel is on; off anywhere outside.
* `Screen.flip`, `Screen.meets` — turning the pixels of a mask over, and whether one of them is on.
* `Screen.draw` — drawing a sprite row by row, with a report whether a pixel was turned off.
* `Screen.words` — the screen as a host is shown it, one word for a pixel.
* `pixel_flip` — turning over changes exactly the pixels of the mask.
-/

namespace Chip8

/-- What becomes of the part of a sprite that reaches beyond the right or the bottom edge. -/
inductive Edge where
  /-- It is not drawn. -/
  | clip
  /-- It is drawn from the opposite edge on. -/
  | wrap
deriving DecidableEq, Repr

abbrev screenWidth : Nat := 64

abbrev screenHeight : Nat := 32

/-- The pixels of the screen. -/
structure Screen where
  /-- The rows from the top, column 0 in the most significant bit. -/
  rows : Vector (BitVec screenWidth) screenHeight
deriving DecidableEq

namespace Screen

def blank : Screen := ⟨Vector.replicate screenHeight 0⟩

/-- The pixels of a row; a row outside the screen is empty. -/
def row (screen : Screen) (y : Nat) : BitVec screenWidth :=
  screen.rows[y]?.getD 0

/-- Whether a pixel is on; outside the screen none is. -/
def pixel (screen : Screen) (x y : Nat) : Bool :=
  (screen.row y).getMsbD x

/-- The pixels of a row, from the left. -/
def pixels (screen : Screen) (y : Nat) : List Bool :=
  (List.range screenWidth).map fun x => screen.pixel x y

/-- The word by which a host is shown a pixel. -/
def word (lit : Bool) : UInt32 :=
  if lit then 0xFFFFFFFF else 0

/-- The words of all pixels, row after row from the top. -/
def words (screen : Screen) : List UInt32 :=
  (List.range screenHeight).flatMap fun y => (screen.pixels y).map word

/-- Turns the pixels of a mask over in one row. -/
def flip (screen : Screen) (y : Nat) (mask : BitVec screenWidth) : Screen :=
  ⟨screen.rows.setIfInBounds y (screen.row y ^^^ mask)⟩

/-- Whether a pixel of a mask is on in one row. -/
def meets (screen : Screen) (y : Nat) (mask : BitVec screenWidth) : Bool :=
  screen.row y &&& mask != 0

/-! ## Drawing -/

/-- The mask of a sprite row whose leftmost pixel lies in column `x`. -/
def mask (edge : Edge) (x : Nat) (sprite : UInt8) : BitVec screenWidth :=
  let leftmost : BitVec screenWidth := sprite.toBitVec ++ 0#56
  match edge with
  | .clip => leftmost >>> x
  | .wrap => leftmost.rotateRight x

/-- The row of the screen on which row `y` of the drawing plane lies, if any does. -/
def landing (edge : Edge) (y : Nat) : Option Nat :=
  match edge with
  | .clip => if y < screenHeight then some y else none
  | .wrap => some (y % screenHeight)

/-- Draws sprite rows from row `y` downwards, each against the screen that the rows above left. -/
def drawRows (edge : Edge) (x : Nat) : Nat → List UInt8 → Screen → Screen × Bool
  | _, [], screen => (screen, false)
  | y, sprite :: rest, screen =>
      match landing edge y with
      | none => drawRows edge x (y + 1) rest screen
      | some line =>
          let stencil := mask edge x sprite
          let (drawn, hit) := drawRows edge x (y + 1) rest (screen.flip line stencil)
          (drawn, screen.meets line stencil || hit)

/-- Draws a sprite whose first pixel is at `(x, y)`, taken onto the screen first, and tells whether
a pixel that was on has been turned off. -/
def draw (edge : Edge) (x y : Nat) (sprite : List UInt8) (screen : Screen) : Screen × Bool :=
  drawRows edge (x % screenWidth) (y % screenHeight) sprite screen

/-! ## The view -/

@[simp] theorem row_blank (y : Nat) : blank.row y = 0 := by
  simp only [row, blank, Vector.getElem?_replicate]
  split <;> rfl

@[simp] theorem pixel_blank (x y : Nat) : blank.pixel x y = false := by
  simp [pixel]

theorem row_flip (screen : Screen) (y line : Nat) (stencil : BitVec screenWidth) :
    (screen.flip line stencil).row y =
      if y = line ∧ line < screenHeight then screen.row line ^^^ stencil else screen.row y := by
  simp only [row, flip, Vector.getElem?_setIfInBounds]
  by_cases hline : line = y
  · subst hline
    by_cases hinside : line < screenHeight <;> simp [hinside]
  · simp [hline, Ne.symm hline]

/-- Turning over changes exactly the pixels of the mask. -/
theorem pixel_flip (screen : Screen) (x y line : Nat) (stencil : BitVec screenWidth) :
    (screen.flip line stencil).pixel x y =
      if y = line ∧ line < screenHeight then screen.pixel x y ^^ stencil.getMsbD x
      else screen.pixel x y := by
  simp only [pixel, row_flip]
  split
  · next h => rw [h.1, BitVec.getMsbD_xor]
  · rfl

/-- Screens with the same pixels are the same. -/
theorem ext_row {a b : Screen} (hview : ∀ y, a.row y = b.row y) : a = b := by
  obtain ⟨as⟩ := a
  obtain ⟨bs⟩ := b
  congr 1
  refine Vector.ext fun y hy => ?_
  simpa [row, Vector.getElem?_eq_getElem hy] using hview y

theorem row_of_beyond (screen : Screen) {y : Nat} (hy : screenHeight ≤ y) : screen.row y = 0 := by
  rw [row, Vector.getElem?_eq_none hy]
  rfl

/-- It is enough that the rows inside the screen are the same. -/
theorem ext_rows {a b : Screen} (hrows : ∀ y < screenHeight, a.row y = b.row y) : a = b := by
  refine ext_row fun y => ?_
  by_cases hy : y < screenHeight
  · exact hrows y hy
  · rw [row_of_beyond a (Nat.le_of_not_lt hy), row_of_beyond b (Nat.le_of_not_lt hy)]

end Screen
end Chip8
