import Chip8.Proofs.Screen.Mask

/-!
# The pixels that a sprite covers

A sprite stands on a plane that is larger than the screen.  Clipping keeps the part of the plane
that is the screen; wrapping rolls the plane up on it.

* `Screen.LiesOn` — a place of the plane is a pixel of the screen.
* `Screen.Covers` — a set bit of a sprite lies on a pixel.
* `Screen.imprint` — what all rows of a sprite turn over in one row of the screen; `row_drawRows` is
  the effect of drawing, for sprites of any length.
* `getMsbD_imprint`, `drawRows_hit_iff` — a sprite of at most 32 rows covers no pixel twice, so that
  drawing turns over what it covers, and hits what is covered and on before.
-/

namespace Chip8
namespace Screen

/-- A place of the drawing plane is a pixel of the screen. -/
def LiesOn (edge : Edge) (x y column line : Nat) : Prop :=
  match edge with
  | .clip => column = x ∧ line = y
  | .wrap => column = x % screenWidth ∧ line = y % screenHeight

/-- A set bit of a sprite that starts at `(x, y)` lies on a pixel. -/
def Covers (edge : Edge) (x y : Nat) (sprite : List UInt8) (column line : Nat) : Prop :=
  ∃ row byte bit, sprite[row]? = some byte ∧ bit < 8 ∧ byte.toBitVec.getMsbD bit = true ∧
    LiesOn edge (x + bit) (y + row) column line

/-- A set bit of one sprite row lies on a pixel. -/
def RowCovers (edge : Edge) (x y : Nat) (byte : UInt8) (column line : Nat) : Prop :=
  ∃ bit < 8, byte.toBitVec.getMsbD bit = true ∧ LiesOn edge (x + bit) y column line

section Covering

variable {edge : Edge} {x y column line : Nat} {byte : UInt8} {rest : List UInt8}

theorem not_covers_nil : ¬ Covers edge x y [] column line := by
  rintro ⟨row, byte, bit, hbyte, -⟩
  simp at hbyte

theorem covers_cons :
    Covers edge x y (byte :: rest) column line ↔
      RowCovers edge x y byte column line ∨ Covers edge x (y + 1) rest column line := by
  constructor
  · rintro ⟨row, found, bit, hfound, hbit, hset, hlies⟩
    cases row with
    | zero =>
      obtain rfl := Option.some.inj hfound
      exact .inl ⟨bit, hbit, hset, hlies⟩
    | succ row =>
      rw [← Nat.succ_add_eq_add_succ] at hlies
      exact .inr ⟨row, found, bit, hfound, hbit, hset, hlies⟩
  · rintro (⟨bit, hbit, hset, hlies⟩ | ⟨row, found, bit, hfound, hbit, hset, hlies⟩)
    · exact ⟨0, byte, bit, rfl, hbit, hset, hlies⟩
    · rw [Nat.succ_add_eq_add_succ] at hlies
      exact ⟨row + 1, found, bit, hfound, hbit, hset, hlies⟩

/-- A row covers a pixel if it lands on the pixel's line and its mask holds the pixel's column. -/
theorem rowCovers_iff (hx : x < screenWidth) (hcolumn : column < screenWidth)
    (hline : line < screenHeight) :
    RowCovers edge x y byte column line ↔
      landing edge y = some line ∧ (mask edge x byte).getMsbD column = true := by
  have hcolumn' : column < 64 := hcolumn
  have hline' : line < 32 := hline
  cases edge with
  | clip =>
    have hlanding : landing .clip y = some line ↔ line = y := by
      rw [landing]
      split
      · exact ⟨fun h => (Option.some.inj h).symm, fun h => congrArg some h.symm⟩
      · next hbeyond => exact ⟨nofun, fun h => absurd (h ▸ hline) hbeyond⟩
    rw [hlanding, getMsbD_mask_clip x byte hcolumn]
    constructor
    · rintro ⟨bit, hbit, hset, hplace, hrow⟩
      have hinside : ¬ screenWidth ≤ x + bit := hplace ▸ Nat.not_le_of_lt hcolumn
      refine ⟨hrow, bit, hbit, lands_eq_true_iff.mpr ⟨hset, fun h => hinside h.2⟩, ?_⟩
      rw [← hplace, Nat.mod_eq_of_lt hcolumn]
    · rintro ⟨hrow, bit, hbit, hlands, hplace⟩
      obtain ⟨hset, hbeyond⟩ := lands_eq_true_iff.mp hlands
      have hinside : x + bit < screenWidth := Nat.lt_of_not_le fun hfar => hbeyond ⟨rfl, hfar⟩
      exact ⟨bit, hbit, hset, by rw [hplace, Nat.mod_eq_of_lt hinside], hrow⟩
  | wrap =>
    have hlanding : landing .wrap y = some line ↔ line = y % screenHeight :=
      ⟨fun h => (Option.some.inj h).symm, fun h => congrArg some h.symm⟩
    rw [hlanding, getMsbD_mask_wrap hx byte hcolumn]
    constructor
    · rintro ⟨bit, hbit, hset, hplace, hrow⟩
      exact ⟨hrow, bit, hbit, lands_eq_true_iff.mpr ⟨hset, nofun⟩, hplace⟩
    · rintro ⟨hrow, bit, hbit, hlands, hplace⟩
      exact ⟨bit, hbit, (lands_eq_true_iff.mp hlands).1, hplace, hrow⟩

/-- Rows of the plane that are less than a screen apart do not land on the same line. -/
theorem not_covers_of_landing (hlanding : landing edge y = some line)
    (hlength : rest.length < screenHeight) : ¬ Covers edge x (y + 1) rest column line := by
  rintro ⟨row, byte, bit, hbyte, -, -, hlies⟩
  have hrow : row < rest.length := (List.getElem?_eq_some_iff.mp hbyte).1
  have hlength : rest.length < 32 := hlength
  cases edge with
  | clip =>
    obtain ⟨-, hline⟩ := hlies
    rw [landing] at hlanding
    split at hlanding <;> cases hlanding
    omega
  | wrap =>
    have hline : line = (y + 1 + row) % 32 := hlies.2
    have hsame : y % 32 = line := Option.some.inj hlanding
    omega

end Covering

/-! ## Drawing -/

/-- What the rows of a sprite turn over in one row of the screen. -/
def imprint (edge : Edge) (x : Nat) : Nat → List UInt8 → Nat → BitVec screenWidth
  | _, [], _ => .ofNat screenWidth 0
  | y, byte :: rest, line =>
      (if landing edge y = some line then mask edge x byte else .ofNat screenWidth 0) ^^^
        imprint edge x (y + 1) rest line

/-- Drawing turns over the imprint of the sprite, however many rows land on one line. -/
theorem row_drawRows (edge : Edge) (x y : Nat) (sprite : List UInt8) (screen : Screen) {line : Nat}
    (hline : line < screenHeight) :
    (drawRows edge x y sprite screen).1.row line =
      screen.row line ^^^ imprint edge x y sprite line := by
  induction sprite generalizing y screen with
  | nil => exact BitVec.xor_zero.symm
  | cons byte rest ih =>
    rw [drawRows, imprint]
    cases hlanding : landing edge y with
    | none =>
      rw [if_neg nofun, BitVec.zero_xor]
      exact ih (y + 1) screen
    | some target =>
      show (drawRows edge x (y + 1) rest (screen.flip target (mask edge x byte))).1.row line = _
      rw [ih, row_flip]
      by_cases hsame : target = line
      · subst hsame
        rw [if_pos ⟨rfl, hline⟩, if_pos rfl, BitVec.xor_assoc]
      · have hother : ¬ some target = some line := fun h => hsame (Option.some.inj h)
        rw [if_neg fun h => hsame h.1.symm, if_neg hother, BitVec.zero_xor]

section Short

variable (edge : Edge) {x : Nat} (hx : x < screenWidth)

include hx

/-- The imprint of at most 32 rows holds the pixels that they cover. -/
theorem getMsbD_imprint (y : Nat) {sprite : List UInt8} (hlength : sprite.length ≤ screenHeight)
    {column line : Nat} (hcolumn : column < screenWidth) (hline : line < screenHeight) :
    (imprint edge x y sprite line).getMsbD column = true ↔
      Covers edge x y sprite column line := by
  induction sprite generalizing y with
  | nil =>
    rw [imprint]
    exact ⟨fun h => absurd (BitVec.getMsbD_zero.symm.trans h) Bool.false_ne_true,
      fun h => absurd h not_covers_nil⟩
  | cons byte rest ih =>
    have hshort : rest.length < screenHeight := hlength
    rw [imprint, BitVec.getMsbD_xor, covers_cons, rowCovers_iff hx hcolumn hline,
      ← ih (y + 1) (Nat.le_of_lt hshort)]
    by_cases hlanding : landing edge y = some line
    · -- no later row lands on this line again
      have hrest : (imprint edge x (y + 1) rest line).getMsbD column = false := by
        refine Bool.eq_false_iff.mpr fun hheld => ?_
        exact not_covers_of_landing hlanding hshort ((ih (y + 1) (Nat.le_of_lt hshort)).mp hheld)
      simp [hlanding, hrest]
    · simp [hlanding]

/-- A sprite of at most 32 rows hits the pixels that it covers and that are on before. -/
theorem drawRows_hit_iff (y : Nat) {sprite : List UInt8} (hlength : sprite.length ≤ screenHeight)
    (screen : Screen) :
    (drawRows edge x y sprite screen).2 = true ↔
      ∃ column < screenWidth, ∃ line < screenHeight,
        Covers edge x y sprite column line ∧ screen.pixel column line = true := by
  induction sprite generalizing y screen with
  | nil =>
    refine ⟨nofun, ?_⟩
    rintro ⟨column, -, line, -, hcovers, -⟩
    exact absurd hcovers not_covers_nil
  | cons byte rest ih =>
    have hshort : rest.length < screenHeight := hlength
    rw [drawRows]
    cases hlanding : landing edge y with
    | none =>
      -- this row lies beyond the edge, so it covers nothing and hits nothing
      show (drawRows edge x (y + 1) rest screen).2 = true ↔ _
      rw [ih (y + 1) (Nat.le_of_lt hshort) screen]
      refine exists_congr fun column => and_congr_right fun hcolumn => exists_congr fun line =>
        and_congr_right fun hline => ?_
      rw [covers_cons, rowCovers_iff hx hcolumn hline, hlanding]
      simp
    | some target =>
      show (screen.meets target (mask edge x byte) ||
        (drawRows edge x (y + 1) rest (screen.flip target (mask edge x byte))).2) = true ↔ _
      have htarget : target < screenHeight := by
        cases edge with
        | clip =>
          rw [landing] at hlanding
          split at hlanding <;> cases hlanding
          assumption
        | wrap => exact Option.some.inj hlanding ▸ Nat.mod_lt _ (by decide)
      rw [Bool.or_eq_true, ih (y + 1) (Nat.le_of_lt hshort), meets_eq_true_iff]
      constructor
      · rintro (⟨column, hlit, hheld⟩ | ⟨column, hcolumn, line, hline, hcovers, hlit⟩)
        · have hcolumn : column < screenWidth := by
            rw [BitVec.getMsbD, Bool.and_eq_true, decide_eq_true_iff] at hheld
            exact hheld.1
          refine ⟨column, hcolumn, target, htarget, covers_cons.mpr (.inl ?_), hlit⟩
          exact (rowCovers_iff hx hcolumn htarget).mpr ⟨hlanding, hheld⟩
        · -- what this row turns over is on another line
          have hother : ¬ (line = target ∧ target < screenHeight) := by
            rintro ⟨rfl, -⟩
            exact not_covers_of_landing hlanding hshort hcovers
          rw [pixel_flip, if_neg hother] at hlit
          exact ⟨column, hcolumn, line, hline, covers_cons.mpr (.inr hcovers), hlit⟩
      · rintro ⟨column, hcolumn, line, hline, hcovers, hlit⟩
        rcases covers_cons.mp hcovers with hrow | hrest
        · obtain ⟨hsame, hheld⟩ := (rowCovers_iff hx hcolumn hline).mp hrow
          obtain rfl : target = line := Option.some.inj (hlanding.symm.trans hsame)
          exact .inl ⟨column, hlit, hheld⟩
        · have hother : ¬ (line = target ∧ target < screenHeight) := by
            rintro ⟨rfl, -⟩
            exact not_covers_of_landing hlanding hshort hrest
          refine .inr ⟨column, hcolumn, line, hline, hrest, ?_⟩
          rw [pixel_flip, if_neg hother]
          exact hlit

end Short

/-- Drawing a sprite of at most 32 rows turns over the pixels that it covers, and no other. -/
theorem pixel_draw (edge : Edge) (x y : Nat) {sprite : List UInt8}
    (hlength : sprite.length ≤ screenHeight) (screen : Screen) {column line : Nat}
    (hcolumn : column < screenWidth) (hline : line < screenHeight) :
    (draw edge x y sprite screen).1.pixel column line ≠ screen.pixel column line ↔
      Covers edge (x % screenWidth) (y % screenHeight) sprite column line := by
  have hx : x % screenWidth < screenWidth := Nat.mod_lt _ (by decide)
  rw [draw, pixel, pixel, row_drawRows _ _ _ _ _ hline, BitVec.getMsbD_xor,
    ← getMsbD_imprint edge hx _ hlength hcolumn hline]
  cases (imprint edge (x % screenWidth) (y % screenHeight) sprite line).getMsbD column <;> simp

/-- A sprite of at most 32 rows hits something exactly if it turns a pixel off. -/
theorem draw_hit_iff (edge : Edge) (x y : Nat) {sprite : List UInt8}
    (hlength : sprite.length ≤ screenHeight) (screen : Screen) :
    (draw edge x y sprite screen).2 = true ↔
      ∃ column < screenWidth, ∃ line < screenHeight,
        Covers edge (x % screenWidth) (y % screenHeight) sprite column line ∧
          screen.pixel column line = true :=
  drawRows_hit_iff edge (Nat.mod_lt _ (by decide)) _ hlength screen

end Screen
end Chip8
