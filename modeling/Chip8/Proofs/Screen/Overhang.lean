import Chip8.Proofs.Screen.Mask

/-!
# Sprites beyond the edges

What becomes of the part of a sprite beyond the right or the bottom edge matters only to a sprite
that has a set bit there.

* `Screen.Overhangs` — a set bit of a sprite lies beyond the right or the bottom edge.
* `mask_clip_eq_wrap`, `mask_eq_zero` — the masks of rows that have none beyond the right edge, or
  none at all.
* `drawRows_clip_eq_wrap`, `draw_eq_of_not_overhangs` — without such a bit, clipping and wrapping
  draw the same and meet the same, however far the rows reach.
-/

namespace Chip8
namespace Screen

/-- A set bit of a sprite row in row `y` lies beyond the right or the bottom edge. -/
def RowOverhangs (x y : Nat) (byte : UInt8) : Prop :=
  ∃ bit < 8, byte.toBitVec.getMsbD bit = true ∧ (screenWidth ≤ x + bit ∨ screenHeight ≤ y)

/-- A set bit of a sprite that starts at `(x, y)` lies beyond the right or the bottom edge. -/
def Overhangs (x y : Nat) (sprite : List UInt8) : Prop :=
  ∃ row byte bit, sprite[row]? = some byte ∧ bit < 8 ∧ byte.toBitVec.getMsbD bit = true ∧
    (screenWidth ≤ x + bit ∨ screenHeight ≤ y + row)

section Overhang

variable {x y : Nat} {byte : UInt8} {rest : List UInt8}

theorem not_overhangs_nil : ¬ Overhangs x y [] := by
  rintro ⟨row, byte, bit, hbyte, -⟩
  simp at hbyte

theorem overhangs_cons :
    Overhangs x y (byte :: rest) ↔ RowOverhangs x y byte ∨ Overhangs x (y + 1) rest := by
  constructor
  · rintro ⟨row, found, bit, hfound, hbit, hset, hbeyond⟩
    cases row with
    | zero =>
      obtain rfl := Option.some.inj hfound
      exact .inl ⟨bit, hbit, hset, hbeyond⟩
    | succ row =>
      rw [← Nat.succ_add_eq_add_succ] at hbeyond
      exact .inr ⟨row, found, bit, hfound, hbit, hset, hbeyond⟩
  · rintro (⟨bit, hbit, hset, hbeyond⟩ | ⟨row, found, bit, hfound, hbit, hset, hbeyond⟩)
    · exact ⟨0, byte, bit, rfl, hbit, hset, hbeyond⟩
    · rw [Nat.succ_add_eq_add_succ] at hbeyond
      exact ⟨row + 1, found, bit, hfound, hbit, hset, hbeyond⟩

instance decidableRowOverhangs (x y : Nat) (byte : UInt8) : Decidable (RowOverhangs x y byte) :=
  inferInstanceAs (Decidable (∃ bit < 8, _))

instance decidableOverhangs (x : Nat) : (y : Nat) → (sprite : List UInt8) →
    Decidable (Overhangs x y sprite)
  | _, [] => .isFalse not_overhangs_nil
  | y, byte :: rest =>
      haveI := decidableOverhangs x (y + 1) rest
      decidable_of_iff (RowOverhangs x y byte ∨ Overhangs x (y + 1) rest) overhangs_cons.symm

/-- A row without a set bit beyond the right edge has one mask. -/
theorem mask_clip_eq_wrap (hx : x < screenWidth)
    (hinside : ∀ bit < 8, byte.toBitVec.getMsbD bit = true → x + bit < screenWidth) :
    mask .clip x byte = mask .wrap x byte := by
  have hlands : ∀ bit < 8, lands .clip x byte bit = true ↔ lands .wrap x byte bit = true := by
    intro bit hbit
    rw [lands_eq_true_iff, lands_eq_true_iff]
    refine and_congr_right fun hset => iff_of_true ?_ nofun
    exact fun hbeyond => Nat.not_le_of_lt (hinside bit hbit hset) hbeyond.2
  refine BitVec.eq_of_getMsbD_eq fun column hcolumn => ?_
  rw [Bool.eq_iff_iff, getMsbD_mask_clip x byte hcolumn, getMsbD_mask_wrap hx byte hcolumn]
  exact exists_congr fun bit => and_congr_right fun hbit =>
    and_congr_left fun _ => hlands bit hbit

/-- A row without a set bit has an empty mask. -/
theorem mask_eq_zero {edge : Edge} (hx : x < screenWidth)
    (hempty : ∀ bit < 8, byte.toBitVec.getMsbD bit = false) : mask edge x byte = 0 := by
  rw [← bitsMask_range edge hx]
  refine bitsMask_eq_zero fun bit hbit => ?_
  rw [lands, hempty bit (List.mem_range.mp hbit), Bool.false_and]

/-- A sprite without a set bit beyond the edges is drawn alike on a clipped and on a wrapped
plane. -/
theorem drawRows_clip_eq_wrap (hx : x < screenWidth) {sprite : List UInt8}
    (hinside : ¬ Overhangs x y sprite) (screen : Screen) :
    drawRows .clip x y sprite screen = drawRows .wrap x y sprite screen := by
  induction sprite generalizing y screen with
  | nil => rfl
  | cons byte rest ih =>
    rw [overhangs_cons, not_or] at hinside
    obtain ⟨hrow, hrest⟩ := hinside
    by_cases hy : y < screenHeight
    · have hclip : landing .clip y = some y := if_pos hy
      have hwrap : landing .wrap y = some y := congrArg some (Nat.mod_eq_of_lt hy)
      have hmask : mask .clip x byte = mask .wrap x byte := by
        refine mask_clip_eq_wrap hx fun bit hbit hset => Nat.lt_of_not_le fun hbeyond => ?_
        exact hrow ⟨bit, hbit, hset, .inl hbeyond⟩
      simp only [drawRows, hclip, hwrap, hmask, ih hrest]
    · -- below the bottom edge clipping passes over the row, and wrapping draws an empty one
      have hclip : landing .clip y = none := if_neg hy
      have hwrap : landing .wrap y = some (y % screenHeight) := rfl
      have hmask : mask .wrap x byte = 0 := by
        refine mask_eq_zero hx fun bit hbit => Bool.eq_false_iff.mpr fun hset => ?_
        exact hrow ⟨bit, hbit, hset, .inr (Nat.le_of_not_lt hy)⟩
      simp only [drawRows, hclip, hwrap, hmask, flip_zero, meets_zero, Bool.false_or, ih hrest]

/-- A sprite without a set bit beyond the edges is drawn alike whatever becomes of such bits. -/
theorem draw_eq_of_not_overhangs (first second : Edge) {sprite : List UInt8}
    (hinside : ¬ Overhangs (x % screenWidth) (y % screenHeight) sprite) (screen : Screen) :
    draw first x y sprite screen = draw second x y sprite screen := by
  have hx : x % screenWidth < screenWidth := Nat.mod_lt x (by decide)
  have hsame := drawRows_clip_eq_wrap hx hinside screen
  cases first with
  | clip =>
    cases second with
    | clip => rfl
    | wrap => exact hsame
  | wrap =>
    cases second with
    | clip => exact hsame.symm
    | wrap => rfl

end Overhang
end Screen
end Chip8
