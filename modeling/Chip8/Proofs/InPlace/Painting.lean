import Chip8.Proofs.InPlace.Moves
import Chip8.Proofs.Screen.Mask

/-!
# Drawing pixel by pixel

* `Board.withScreen` — a board with the words of a screen.
* `touch_apply` — one pixel; its index is in range for every row and column of the screen.
* `paintBits_apply` — the bits of a row, one after the other, do what the mask of the row does.
* `paint_apply` — drawing on a board shows what drawing on its screen gives.
* `Board.pixel_screen`, `Board.screen_withScreen` — the words of a board, and the screen they show.
-/

namespace Chip8

/-- A board with the words of a screen. -/
def Board.withScreen (board : Board) (screen : Screen) : Board :=
  { board with pixels := screen.words.toArray }

namespace Work

open Screen

variable {ε : Type}

theorem touch_apply {row column : Nat} (hrow : row < screenHeight) (hcolumn : column < screenWidth)
    (board : Board) (screen : Screen) :
    (touch row column : Work ε Bool).on (board.withScreen screen) =
      (.done (screen.pixel column row), board.withScreen (screen.flip row (single column))) := by
  have hsize : (row + 1) * screenWidth ≤ (board.withScreen screen).pixels.size := by
    show (row + 1) * screenWidth ≤ screen.words.length
    rw [length_words]
    exact Nat.mul_le_mul_right _ hrow
  have hfound : (board.withScreen screen).pixels[row * screenWidth + column]? =
      some (word (screen.pixel column row)) :=
    List.getElem?_toArray.trans (getElem?_words screen hrow hcolumn)
  unfold touch
  rw [bind_done (look_apply _), bind_done (demand_apply hsize _ _),
    bind_done (demand_apply hcolumn _ _), bind_done (look_apply _),
    bind_done (entry_apply hfound _), bind_done (alter_apply _ _), pure_apply,
    word_ne_word_false, word_xor_true]
  unfold Board.withScreen
  rw [List.setIfInBounds_toArray, words_flip screen hrow hcolumn]

/-- A bit of a sprite row is tested by the byte that has only this bit. -/
theorem and_bit_eq_zero_iff (sprite : UInt8) {bit : Nat} (hbit : bit < 8) :
    sprite &&& (0x80 >>> UInt8.ofNat bit) = 0 ↔ ¬ sprite.toBitVec.getMsbD bit = true := by
  have htest : ∀ bit < 8, (0x80 >>> UInt8.ofNat bit : UInt8).toBitVec = BitVec.twoPow 8 (7 - bit) ∧
      BitVec.twoPow 8 (7 - bit) ≠ 0#8 := by
    decide
  have hplace : sprite.toBitVec.getLsbD (7 - bit) = sprite.toBitVec.getMsbD bit := by
    rw [BitVec.getMsbD_eq_getLsbD, decide_eq_true hbit, Bool.true_and]
  rw [← UInt8.toBitVec_inj, UInt8.toBitVec_and, (htest bit hbit).1, BitVec.and_twoPow, hplace]
  cases sprite.toBitVec.getMsbD bit with
  | true => simpa using (htest bit hbit).2
  | false => simp

/-- The bits of a row, one after the other, do what their common mask does. -/
theorem paintBits_apply (edge : Edge) (x : Nat) {row : Nat} (hrow : row < screenHeight)
    (sprite : UInt8) (bits : List Nat) (hbits : ∀ bit ∈ bits, bit < 8)
    (hsorted : bits.Pairwise (· < ·)) (hit : Bool) (board : Board) (screen : Screen) :
    let stencil := bitsMask edge x sprite bits
    (paintBits edge x row sprite bits hit : Work ε Bool).on (board.withScreen screen) =
      (.done (hit || screen.meets row stencil), board.withScreen (screen.flip row stencil)) := by
  -- along the bits: each of them is drawn on what those before it have left
  induction bits generalizing hit screen with
  | nil =>
    show (Ending.done hit, board.withScreen screen) = _
    rw [bitsMask, meets_zero, flip_zero, Bool.or_false]
  | cons bit rest ih =>
    obtain ⟨hbit, hrest⟩ := List.forall_mem_cons.mp hbits
    obtain ⟨hlater, hsorted⟩ := List.pairwise_cons.mp hsorted
    show (paintBits edge x row sprite (bit :: rest) hit : Work ε Bool).on _ = _
    rw [paintBits, bind_done (demand_apply hbit _ _)]
    by_cases hclear : sprite &&& (0x80 >>> UInt8.ofNat bit) = 0
    · have hlands : lands edge x sprite bit = false :=
        Bool.eq_false_iff.mpr fun hlands =>
          (and_bit_eq_zero_iff sprite hbit).mp hclear (lands_eq_true_iff.mp hlands).1
      rw [if_pos hclear, bitsMask_cons_of_not_lands hlands]
      exact ih hrest hsorted hit screen
    rw [if_neg hclear]
    by_cases hbeyond : edge = .clip ∧ screenWidth ≤ x + bit
    · -- the bits are in order, so no later bit lands on the screen either
      obtain ⟨rfl, hfar⟩ := hbeyond
      rw [if_pos ⟨rfl, hfar⟩, bitsMask_of_beyond hfar hlater, meets_zero, flip_zero,
        Bool.or_false, pure_apply]
    · have hcolumn : (x + bit) % screenWidth < screenWidth := Nat.mod_lt _ (by decide)
      have hset : sprite.toBitVec.getMsbD bit = true :=
        Classical.byContradiction fun h => hclear ((and_bit_eq_zero_iff sprite hbit).mpr h)
      have hlands := lands_eq_true_iff.mpr ⟨hset, hbeyond⟩
      have hdisjoint : ∀ column, (single ((x + bit) % screenWidth)).getMsbD column = true →
          (bitsMask edge x sprite rest).getMsbD column = false := fun _ =>
        getMsbD_bitsMask_of_single fun later hmember =>
          ⟨hlater later hmember, hrest later hmember⟩
      rw [if_neg hbeyond, bind_done (touch_apply hrow hcolumn board screen), ih hrest hsorted,
        bitsMask_cons_of_lands hlands, flip_or screen row hdisjoint,
        meets_or screen row hdisjoint, meets_single screen row hcolumn, Bool.or_assoc]

/-- Below the screen nothing is drawn. -/
theorem drawRows_of_beyond (x : Nat) {y : Nat} (hy : screenHeight ≤ y) (sprite : List UInt8)
    (screen : Screen) : drawRows .clip x y sprite screen = (screen, false) := by
  induction sprite generalizing y with
  | nil => rfl
  | cons row rest ih =>
    have hnone : landing .clip y = none := if_neg (Nat.not_lt_of_le hy)
    rw [drawRows, hnone]
    exact ih (Nat.le_succ_of_le hy)

theorem paintRows_apply (edge : Edge) {x : Nat} (hx : x < screenWidth) (y : Nat)
    (sprite : List UInt8) (hit : Bool) (board : Board) (screen : Screen) :
    let drawn := drawRows edge x y sprite screen
    (paintRows edge x y sprite hit : Work ε Bool).on (board.withScreen screen) =
      (.done (hit || drawn.2), board.withScreen drawn.1) := by
  induction sprite generalizing y hit screen with
  | nil =>
    show (Ending.done hit, board.withScreen screen) = _
    rw [drawRows, Bool.or_false]
  | cons row rest ih =>
    show (paintRows edge x y (row :: rest) hit : Work ε Bool).on _ = _
    rw [paintRows]
    by_cases hbeyond : edge = .clip ∧ screenHeight ≤ y
    · -- no further row is painted; the machine goes on through the rows without drawing any
      obtain ⟨rfl, hy⟩ := hbeyond
      rw [if_pos ⟨rfl, hy⟩, drawRows_of_beyond x hy, Bool.or_false, pure_apply]
    · have hline : y % screenHeight < screenHeight := Nat.mod_lt _ (by decide)
      have hlanding : landing edge y = some (y % screenHeight) := by
        cases edge with
        | clip =>
          have hy : y < screenHeight := Nat.lt_of_not_le fun hy => hbeyond ⟨rfl, hy⟩
          rw [Nat.mod_eq_of_lt hy]
          exact if_pos hy
        | wrap => rfl
      have hbits := paintBits_apply (ε := ε) edge x hline row (List.range 8)
        (fun bit hbit => List.mem_range.mp hbit) List.pairwise_lt_range hit board screen
      rw [if_neg hbeyond, bind_done hbits, ih, drawRows, hlanding, bitsMask_range edge hx,
        Bool.or_assoc]

/-- Drawing on a board shows what drawing on its screen gives, and tells the same. -/
theorem paint_apply (edge : Edge) (x y : Nat) (sprite : List UInt8) (board : Board)
    (screen : Screen) :
    (paint edge x y sprite : Work ε Bool).on (board.withScreen screen) =
      (.done (Screen.draw edge x y sprite screen).2,
        board.withScreen (Screen.draw edge x y sprite screen).1) := by
  have hx : x % screenWidth < screenWidth := Nat.mod_lt _ (by decide)
  unfold paint Screen.draw
  rw [paintRows_apply edge hx, Bool.false_or]

/-! ## Clearing and reading back -/

/-- A board whose words are all off shows the blank screen. -/
theorem clear_withScreen (board : Board) (screen : Screen) :
    { board.withScreen screen with
      pixels := (board.withScreen screen).pixels.map fun _ => word false } =
      board.withScreen .blank := by
  have hwords : (screen.words.map fun _ => word false) = Screen.blank.words := by
    rw [words_blank, List.map_const', length_words]
  unfold Board.withScreen
  rw [List.map_toArray, hwords]

end Work

/-- A pixel is on unless its word is zero. -/
theorem Board.pixel_screen (board : Board) {row column : Nat} (hrow : row < screenHeight)
    (hcolumn : column < screenWidth) :
    board.screen.pixel column row =
      (board.pixels[row * screenWidth + column]?.getD 0 != Screen.word false) := by
  have hlight : board.screen.pixel column row = (board.lights row).getD column false := by
    rw [Screen.pixel, Screen.row, Board.screen, Vector.getElem?_eq_getElem hrow]
    simp
  rw [hlight, Board.lights, List.getD_eq_getElem?_getD, List.getElem?_map,
    List.getElem?_range hcolumn]
  rfl

/-- The words of a screen show the screen. -/
theorem Board.screen_withScreen (board : Board) (screen : Screen) :
    (board.withScreen screen).screen = screen := by
  refine Screen.ext_rows fun y hy => BitVec.eq_of_getMsbD_eq fun x hx => ?_
  have hword : ((board.withScreen screen).pixels[y * screenWidth + x]?.getD 0) =
      Screen.word (screen.pixel x y) := by
    show (screen.words.toArray[y * screenWidth + x]?).getD 0 = _
    rw [List.getElem?_toArray, Screen.getElem?_words screen hy hx]
    rfl
  show (board.withScreen screen).screen.pixel x y = screen.pixel x y
  rw [Board.pixel_screen _ hy hx, hword, Screen.word_ne_word_false]

end Chip8
