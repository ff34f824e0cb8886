import Chip8.Proofs.Screen.Covering

/-!
# Drawings over one another

What a drawing turns over does not depend on what it is drawn on.  So drawings may change places,
and a drawing takes itself back, however many others lie between.

* `foldl_of_twice` — of steps that commute and undo themselves, one taken twice may be left out.
* `Screen.Drawing`, `Drawing.onto` — a sprite with its place and edges, and the screen after it.
* `row_onto` — the imprint of a drawing on a row, for sprites of any length.
* `onto_comm`, `onto_onto` — two drawings in either order, and one drawing twice.
* `hit_again_iff` — what the second of two drawings that are the same hits.
-/

namespace Chip8

/-- Of steps that commute and undo themselves, a step that is taken twice may be left out. -/
theorem foldl_of_twice {α β : Type} {step : β → α → β}
    (hcomm : ∀ state first second, step (step state first) second = step (step state second) first)
    (htwice : ∀ state twice, step (step state twice) twice = state)
    (before between behind : List α) (twice : α) (start : β) :
    (before ++ twice :: (between ++ twice :: behind)).foldl step start =
      (before ++ (between ++ behind)).foldl step start := by
  have hmoved (state : β) : (between ++ twice :: behind).foldl step state =
      (twice :: (between ++ behind)).foldl step state :=
    List.perm_middle.foldl_eq' (fun first _ second _ state => hcomm state first second) state
  rw [List.foldl_append, List.foldl_cons, hmoved, List.foldl_cons, htwice, ← List.foldl_append]

namespace Screen

/-- A sprite, and where and on which plane it is drawn. -/
structure Drawing where
  edge : Edge
  x : Nat
  y : Nat
  sprite : List UInt8

namespace Drawing

/-- The screen after a drawing. -/
def onto (screen : Screen) (drawing : Drawing) : Screen :=
  (draw drawing.edge drawing.x drawing.y drawing.sprite screen).1

/-- What a drawing turns over in a row. -/
def print (drawing : Drawing) (line : Nat) : BitVec screenWidth :=
  imprint drawing.edge (drawing.x % screenWidth) (drawing.y % screenHeight) drawing.sprite line

theorem row_onto (screen : Screen) (drawing : Drawing) {line : Nat} (hline : line < screenHeight) :
    (onto screen drawing).row line = screen.row line ^^^ drawing.print line :=
  row_drawRows _ _ _ _ screen hline

/-- Two drawings come to the same in either order. -/
theorem onto_comm (screen : Screen) (first second : Drawing) :
    onto (onto screen first) second = onto (onto screen second) first := by
  refine ext_rows fun line hline => ?_
  rw [row_onto _ _ hline, row_onto _ _ hline, row_onto _ _ hline, row_onto _ _ hline,
    BitVec.xor_assoc, BitVec.xor_comm (first.print line), ← BitVec.xor_assoc]

/-- A drawing takes itself back. -/
theorem onto_onto (screen : Screen) (drawing : Drawing) :
    onto (onto screen drawing) drawing = screen := by
  refine ext_rows fun line hline => ?_
  rw [row_onto _ _ hline, row_onto _ _ hline, BitVec.xor_assoc, BitVec.xor_self, BitVec.xor_zero]

/-- A sprite of at most 32 rows that is drawn for the second time hits what was off before the
first. -/
theorem hit_again_iff (screen : Screen) (drawing : Drawing)
    (hlength : drawing.sprite.length ≤ screenHeight) :
    (draw drawing.edge drawing.x drawing.y drawing.sprite (onto screen drawing)).2 = true ↔
      ∃ column < screenWidth, ∃ line < screenHeight,
        Covers drawing.edge (drawing.x % screenWidth) (drawing.y % screenHeight) drawing.sprite
          column line ∧ screen.pixel column line = false := by
  rw [draw_hit_iff _ _ _ hlength]
  refine exists_congr fun column => and_congr_right fun hcolumn => exists_congr fun line =>
    and_congr_right fun hline => and_congr_right fun hcovers => ?_
  have hturned := (pixel_draw drawing.edge drawing.x drawing.y hlength screen hcolumn hline).mpr
    hcovers
  rw [onto, Bool.eq_not_of_ne hturned, Bool.not_eq_true']

end Drawing
end Screen
end Chip8
