import Chip8.Proofs.InPlace.Drawing

/-!
# Clipping inside wrapping

The window of a sprite is the part of the screen to the right of its first column and below its first
row, both included.  Clipping draws what wrapping draws there, and leaves the rest alone.

* `Screen.InWindow` — a pixel lies in the window.
* `covers_clip_iff` — what a clipped sprite covers is what the wrapped one covers in the window.
* `pixel_draw_clip`, `wrap_hit_of_clip_hit`, `exists_turned_off_outside` — the two drawings, pixel by
  pixel, and their reports.
* `Work.paint_shown` — painting on a board whose words are all on or off, as drawing on the screen
  that it shows.
* `clip_is_wrap_in_window` — both for painting with and without wrapping on one board.
-/

namespace Chip8
namespace Screen

/-- A pixel lies to the right of column `x` and below row `y`, or on them. -/
def InWindow (x y column line : Nat) : Prop := x ≤ column ∧ y ≤ line

instance (x y column line : Nat) : Decidable (InWindow x y column line) :=
  inferInstanceAs (Decidable (_ ∧ _))

theorem not_inWindow_iff {x y column line : Nat} :
    ¬ InWindow x y column line ↔ column < x ∨ line < y := by
  unfold InWindow
  omega

section Window

variable {x y column line : Nat} {sprite : List UInt8}

/-- On the screen, a place of the plane that clipping keeps is one that wrapping leaves where it
is. -/
theorem covers_wrap_of_clip (hcolumn : column < screenWidth) (hline : line < screenHeight)
    (hcovers : Covers .clip x y sprite column line) : Covers .wrap x y sprite column line := by
  obtain ⟨row, byte, bit, hbyte, hbit, hset, rfl, rfl⟩ := hcovers
  exact ⟨row, byte, bit, hbyte, hbit, hset, (Nat.mod_eq_of_lt hcolumn).symm,
    (Nat.mod_eq_of_lt hline).symm⟩

theorem inWindow_of_clip (hcovers : Covers .clip x y sprite column line) :
    InWindow x y column line := by
  obtain ⟨row, byte, bit, -, -, -, rfl, rfl⟩ := hcovers
  exact ⟨Nat.le_add_right x bit, Nat.le_add_right y row⟩

/-- A bit that wrapping moves comes to lie to the left of the window or above it, for the sprite is
narrower than the screen and at most as high. -/
theorem covers_clip_of_wrap (hx : x < screenWidth) (hy : y < screenHeight)
    (hlength : sprite.length ≤ screenHeight) (hwindow : InWindow x y column line)
    (hcovers : Covers .wrap x y sprite column line) : Covers .clip x y sprite column line := by
  obtain ⟨row, byte, bit, hbyte, hbit, hset, hcolumn, hline⟩ := hcovers
  have hrow : row < sprite.length := (List.getElem?_eq_some_iff.mp hbyte).1
  obtain ⟨hright, hbelow⟩ := hwindow
  have hcolumn : column = (x + bit) % 64 := hcolumn
  have hline : line = (y + row) % 32 := hline
  have hx : x < 64 := hx
  have hy : y < 32 := hy
  have hlength : sprite.length ≤ 32 := hlength
  have hplace : column = x + bit := by omega
  have hlevel : line = y + row := by omega
  exact ⟨row, byte, bit, hbyte, hbit, hset, hplace, hlevel⟩

/-- A clipped sprite covers what the wrapped one covers in the window. -/
theorem covers_clip_iff (hx : x < screenWidth) (hy : y < screenHeight)
    (hlength : sprite.length ≤ screenHeight) (hcolumn : column < screenWidth)
    (hline : line < screenHeight) :
    Covers .clip x y sprite column line ↔
      InWindow x y column line ∧ Covers .wrap x y sprite column line :=
  ⟨fun h => ⟨inWindow_of_clip h, covers_wrap_of_clip hcolumn hline h⟩,
    fun h => covers_clip_of_wrap hx hy hlength h.1 h.2⟩

end Window

section Drawings

variable (x y : Nat) {sprite : List UInt8} (hlength : sprite.length ≤ screenHeight)
  (screen : Screen)

include hlength

/-- A clipped drawing is the wrapped one in the window, and the screen before elsewhere. -/
theorem pixel_draw_clip {column line : Nat} (hcolumn : column < screenWidth)
    (hline : line < screenHeight) :
    (draw .clip x y sprite screen).1.pixel column line =
      if InWindow (x % screenWidth) (y % screenHeight) column line then
        (draw .wrap x y sprite screen).1.pixel column line
      else screen.pixel column line := by
  have hcovers := covers_clip_iff (Nat.mod_lt x (by decide)) (Nat.mod_lt y (by decide)) hlength
    hcolumn hline
  have hclip := pixel_draw .clip x y hlength screen hcolumn hline
  have hwrap := pixel_draw .wrap x y hlength screen hcolumn hline
  by_cases hwindow : InWindow (x % screenWidth) (y % screenHeight) column line
  · -- both turn the pixel over, or neither does
    rw [if_pos hwindow]
    rw [hcovers, and_iff_right hwindow, ← hwrap] at hclip
    cases hbefore : screen.pixel column line <;> simp_all
  · rw [if_neg hwindow]
    exact Classical.not_not.mp fun h => hwindow (hcovers.mp (hclip.mp h)).1

/-- What clipping hits, wrapping hits. -/
theorem wrap_hit_of_clip_hit (hhit : (draw .clip x y sprite screen).2 = true) :
    (draw .wrap x y sprite screen).2 = true := by
  obtain ⟨column, hcolumn, line, hline, hcovers, hlit⟩ :=
    (draw_hit_iff .clip x y hlength screen).mp hhit
  exact (draw_hit_iff .wrap x y hlength screen).mpr
    ⟨column, hcolumn, line, hline, covers_wrap_of_clip hcolumn hline hcovers, hlit⟩

/-- What only wrapping hits lies outside the window. -/
theorem exists_turned_off_outside (hwrap : (draw .wrap x y sprite screen).2 = true)
    (hclip : (draw .clip x y sprite screen).2 = false) :
    ∃ column < screenWidth, ∃ line < screenHeight,
      ¬ InWindow (x % screenWidth) (y % screenHeight) column line ∧
        screen.pixel column line = true ∧
        (draw .wrap x y sprite screen).1.pixel column line = false := by
  obtain ⟨column, hcolumn, line, hline, hcovers, hlit⟩ :=
    (draw_hit_iff .wrap x y hlength screen).mp hwrap
  refine ⟨column, hcolumn, line, hline, fun hwindow => ?_, hlit, ?_⟩
  · have hhit : (draw .clip x y sprite screen).2 = true :=
      (draw_hit_iff .clip x y hlength screen).mpr ⟨column, hcolumn, line, hline,
        covers_clip_of_wrap (Nat.mod_lt x (by decide)) (Nat.mod_lt y (by decide)) hlength hwindow
          hcovers, hlit⟩
    rw [hclip] at hhit
    exact absurd hhit Bool.false_ne_true
  · have hturned := (pixel_draw .wrap x y hlength screen hcolumn hline).mpr hcovers
    rw [hlit] at hturned
    exact Bool.eq_false_iff.mpr hturned

end Drawings
end Screen

open Screen

/-- The word of a pixel of a board whose words are all on or off. -/
theorem Board.getElem?_pixels {board : Board} (hsize : board.pixels.size = 2048)
    (hwords : ∀ word ∈ board.pixels, word = 0 ∨ word = 0xFFFFFFFF) {column line : Nat}
    (hcolumn : column < screenWidth) (hline : line < screenHeight) :
    board.pixels[line * screenWidth + column]? = some (word (board.screen.pixel column line)) := by
  have hpixels : board.pixels = board.screen.words.toArray :=
    congrArg Board.pixels (Board.withScreen_screen hsize hwords).symm
  rw [hpixels, List.getElem?_toArray]
  exact Screen.getElem?_words _ hline hcolumn

/-- Painting on a board whose words are all on or off is drawing on the screen that it shows. -/
theorem Work.paint_shown {ε : Type} (edge : Edge) (x y : Nat) (sprite : List UInt8) {board : Board}
    (hsize : board.pixels.size = 2048)
    (hwords : ∀ word ∈ board.pixels, word = 0 ∨ word = 0xFFFFFFFF) :
    (Work.paint edge x y sprite : Work ε Bool).on board =
      (.done (draw edge x y sprite board.screen).2,
        board.withScreen (draw edge x y sprite board.screen).1) := by
  have hpaint := Work.paint_apply (ε := ε) edge x y sprite board board.screen
  rwa [Board.withScreen_screen hsize hwords] at hpaint

/-- Painting a sprite of at most 32 rows on a board whose words are all on or off, clipped and
wrapped.  Both come to an end.  They leave the same words in the window of the place that is taken
onto the screen, and clipping leaves every word outside it as it was.  If clipping tells a hit, so
does wrapping; and if only wrapping does, it has turned off a pixel outside the window. -/
theorem clip_is_wrap_in_window {ε : Type} (x y : Nat) (sprite : List UInt8) (board : Board)
    (hsize : board.pixels.size = 2048)
    (hwords : ∀ word ∈ board.pixels, word = 0 ∨ word = 0xFFFFFFFF)
    (hlength : sprite.length ≤ 32) :
    ∃ clipHit clipped wrapHit wrapped,
      (Work.paint .clip x y sprite : Work ε Bool).on board =
          (.done clipHit, { board with pixels := clipped }) ∧
        (Work.paint .wrap x y sprite : Work ε Bool).on board =
          (.done wrapHit, { board with pixels := wrapped }) ∧
        clipped.size = 2048 ∧ wrapped.size = 2048 ∧
        (∀ column < 64, ∀ line < 32, x % 64 ≤ column ∧ y % 32 ≤ line →
          clipped[line * 64 + column]? = wrapped[line * 64 + column]?) ∧
        (∀ column < 64, ∀ line < 32, column < x % 64 ∨ line < y % 32 →
          clipped[line * 64 + column]? = board.pixels[line * 64 + column]?) ∧
        (clipHit = true → wrapHit = true) ∧
        (wrapHit = true → clipHit = false →
          ∃ column < 64, ∃ line < 32, (column < x % 64 ∨ line < y % 32) ∧
            board.pixels[line * 64 + column]? = some 0xFFFFFFFF ∧
            wrapped[line * 64 + column]? = some 0) := by
  have hword : ∀ {column line : Nat}, column < 64 → line < 32 →
      board.pixels[line * 64 + column]? = some (word (board.screen.pixel column line)) :=
    fun hcolumn hline => Board.getElem?_pixels hsize hwords hcolumn hline
  have hdrawn : ∀ (screen : Screen) {column line : Nat}, column < 64 → line < 32 →
      screen.words.toArray[line * 64 + column]? = some (word (screen.pixel column line)) :=
    fun screen _ _ hcolumn hline =>
      List.getElem?_toArray.trans (getElem?_words screen hline hcolumn)
  refine ⟨_, _, _, _, Work.paint_shown .clip x y sprite hsize hwords,
    Work.paint_shown .wrap x y sprite hsize hwords, length_words _, length_words _,
    fun column hcolumn line hline hwindow => ?_, fun column hcolumn line hline houtside => ?_,
    wrap_hit_of_clip_hit x y hlength board.screen, fun hwrap hclip => ?_⟩
  · have hwindow : InWindow (x % screenWidth) (y % screenHeight) column line := hwindow
    rw [hdrawn _ hcolumn hline, hdrawn _ hcolumn hline,
      pixel_draw_clip x y hlength board.screen hcolumn hline, if_pos hwindow]
  · rw [hdrawn _ hcolumn hline, hword hcolumn hline,
      pixel_draw_clip x y hlength board.screen hcolumn hline,
      if_neg (not_inWindow_iff.mpr houtside)]
  · obtain ⟨column, hcolumn, line, hline, hwindow, hlit, hoff⟩ :=
      exists_turned_off_outside x y hlength board.screen hwrap hclip
    refine ⟨column, hcolumn, line, hline, not_inWindow_iff.mp hwindow, ?_, ?_⟩
    · rw [hword hcolumn hline, hlit]
      rfl
    · rw [hdrawn _ hcolumn hline, hoff]
      rfl

/-- A sprite at the last pixel but one, over the corner of a board on which only the first pixel is
on: wrapped it turns that pixel off, and clipped it hits nothing. -/
theorem clip_is_wrap_in_window_corner :
    let sprite : List UInt8 := [0xFF, 0xFF]
    let board := (Machine.loaded ⟨[]⟩ {} (.ofSeed 0)).board.withScreen (draw .clip 0 0 [0x80] blank).1
    ∃ wrapHit wrapped,
      (Work.paint .wrap 126 63 sprite : Work Fault Bool).on board =
          (.done wrapHit, { board with pixels := wrapped }) ∧
        wrapHit = true ∧
        ∃ column < 64, ∃ line < 32, (column < 62 ∨ line < 31) ∧
          board.pixels[line * 64 + column]? = some 0xFFFFFFFF ∧
          wrapped[line * 64 + column]? = some 0 := by
  intro sprite board
  have hwords : ∀ word ∈ board.pixels, word = 0 ∨ word = 0xFFFFFFFF := fun _ hword =>
    mem_words (List.mem_toArray.mp hword)
  obtain ⟨clipHit, clipped, wrapHit, wrapped, hclip, hwrap, -, -, -, -, -, houtside⟩ :=
    clip_is_wrap_in_window 126 63 sprite board (length_words _) hwords (by decide)
  have hscreen : board.screen = (draw .clip 0 0 [0x80] blank).1 :=
    Board.screen_withScreen _ _
  have htold : ∀ {edge : Edge} {hit : Bool} {pixels : Array UInt32},
      (Work.paint edge 126 63 sprite : Work Fault Bool).on board =
        (.done hit, { board with pixels }) →
      hit = (draw edge 126 63 sprite (draw .clip 0 0 [0x80] blank).1).2 := by
    intro edge hit pixels hpaint
    rw [Work.paint_shown edge 126 63 sprite (length_words _) hwords, hscreen] at hpaint
    exact (Ending.done.inj (congrArg Prod.fst hpaint)).symm
  have hmissed : clipHit = false := (htold hclip).trans (by decide +kernel)
  have hhit : wrapHit = true := (htold hwrap).trans (by decide +kernel)
  exact ⟨wrapHit, wrapped, hwrap, hhit, houtside hhit hmissed⟩

end Chip8
