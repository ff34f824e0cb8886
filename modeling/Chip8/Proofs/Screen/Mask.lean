import Chip8.Proofs.Screen.Words

/-!
# Masks of sprite rows

A sprite row is drawn through one mask for all of its bits.  The mask is the union of the masks of
single columns, one for each bit that is set and lands on the screen.

* `Screen.lands` — a set bit of a sprite row lands in a column.
* `Screen.bitsMask` — the union over some bits; `getMsbD_bitsMask` tells which columns it holds.
* `getMsbD_mask_clip`, `getMsbD_mask_wrap` — which columns the mask of a row holds.
* `bitsMask_range` — over all eight bits the union is the mask of the row.
* `flip_or`, `meets_or` — drawing through two masks that have no column in common.
-/

namespace Chip8
namespace Screen

/-! ## Two masks -/

/-- A mask meets a row if it holds the column of a pixel that is on. -/
theorem meets_eq_true_iff {screen : Screen} {line : Nat} {stencil : BitVec screenWidth} :
    screen.meets line stencil = true ↔
      ∃ x, screen.pixel x line = true ∧ stencil.getMsbD x = true := by
  rw [meets, bne_iff_ne]
  constructor
  · intro hmeets
    refine Classical.byContradiction fun hnone => hmeets ?_
    refine BitVec.eq_of_getMsbD_eq fun x _ => ?_
    have hx := not_exists.mp hnone x
    rw [pixel] at hx
    refine Eq.trans ?_ BitVec.getMsbD_zero.symm
    rw [BitVec.getMsbD_and]
    exact Bool.eq_false_iff.mpr fun hboth => hx ((Bool.and_eq_true _ _).mp hboth)
  · rintro ⟨x, hlit, hheld⟩ hempty
    have hboth : (screen.row line &&& stencil).getMsbD x = true := by
      rw [BitVec.getMsbD_and, Bool.and_eq_true]
      exact ⟨hlit, hheld⟩
    rw [hempty] at hboth
    exact Bool.false_ne_true (BitVec.getMsbD_zero.symm.trans hboth)

theorem meets_single (screen : Screen) (line : Nat) {column : Nat}
    (hcolumn : column < screenWidth) :
    screen.meets line (single column) = screen.pixel column line := by
  rw [Bool.eq_iff_iff, meets_eq_true_iff]
  constructor
  · rintro ⟨x, hlit, hheld⟩
    rw [getMsbD_single hcolumn, decide_eq_true_iff] at hheld
    exact hheld ▸ hlit
  · intro hlit
    refine ⟨column, hlit, ?_⟩
    rw [getMsbD_single hcolumn, decide_eq_true rfl]

section Masks

variable (screen : Screen) (line : Nat) {first second : BitVec screenWidth}

theorem flip_zero : screen.flip line 0 = screen := by
  refine ext_row fun y => ?_
  rw [row_flip]
  split
  · next h =>
    rw [h.1]
    exact BitVec.xor_zero
  · rfl

theorem meets_zero : screen.meets line 0 = false := by
  refine Bool.eq_false_iff.mpr fun hmeets => ?_
  obtain ⟨x, -, hheld⟩ := meets_eq_true_iff.mp hmeets
  exact Bool.false_ne_true (BitVec.getMsbD_zero.symm.trans hheld)

variable (hdisjoint : ∀ x, first.getMsbD x = true → second.getMsbD x = false)

include hdisjoint

/-- Drawing through masks without a common column is drawing through their union. -/
theorem flip_or :
    (screen.flip line first).flip line second = screen.flip line (first ||| second) := by
  have hunion (row : BitVec screenWidth) :
      row ^^^ first ^^^ second = row ^^^ (first ||| second) := by
    refine BitVec.eq_of_getMsbD_eq fun x _ => ?_
    have hx := hdisjoint x
    simp only [BitVec.getMsbD_xor, BitVec.getMsbD_or]
    cases hfirst : first.getMsbD x with
    | true => simp [hx hfirst]
    | false => simp
  refine ext_row fun y => ?_
  simp only [row_flip]
  by_cases hline : y = line ∧ line < screenHeight
  · have hsame : line = line ∧ line < screenHeight := ⟨rfl, hline.2⟩
    simp only [if_pos hline, if_pos hline.2, true_and, hunion]
  · simp only [if_neg hline]

/-- Turning the first mask over does not touch the columns of the second. -/
theorem meets_or :
    screen.meets line (first ||| second) =
      (screen.meets line first || (screen.flip line first).meets line second) := by
  have hkept : ∀ x, second.getMsbD x = true →
      (screen.flip line first).pixel x line = screen.pixel x line := by
    intro x hsecond
    have hfirst : first.getMsbD x = false := by
      refine Bool.eq_false_iff.mpr fun hfirst => ?_
      exact Bool.false_ne_true ((hdisjoint x hfirst).symm.trans hsecond)
    rw [pixel_flip, hfirst, Bool.xor_false, ite_self]
  rw [Bool.eq_iff_iff, Bool.or_eq_true, meets_eq_true_iff, meets_eq_true_iff, meets_eq_true_iff]
  constructor
  · rintro ⟨x, hlit, hheld⟩
    rw [BitVec.getMsbD_or, Bool.or_eq_true] at hheld
    rcases hheld with hfirst | hsecond
    · exact .inl ⟨x, hlit, hfirst⟩
    · exact .inr ⟨x, (hkept x hsecond).trans hlit, hsecond⟩
  · rintro (⟨x, hlit, hfirst⟩ | ⟨x, hlit, hsecond⟩)
    · exact ⟨x, hlit, by rw [BitVec.getMsbD_or, hfirst, Bool.true_or]⟩
    · exact ⟨x, (hkept x hsecond).symm.trans hlit, by rw [BitVec.getMsbD_or, hsecond, Bool.or_true]⟩

end Masks

/-! ## The bits of a sprite row -/

/-- A bit of a sprite row that starts at column `x` is set and lands on the screen. -/
def lands (edge : Edge) (x : Nat) (sprite : UInt8) (bit : Nat) : Bool :=
  sprite.toBitVec.getMsbD bit && !(edge == .clip && screenWidth ≤ x + bit)

theorem lands_eq_true_iff {edge : Edge} {x : Nat} {sprite : UInt8} {bit : Nat} :
    lands edge x sprite bit = true ↔
      sprite.toBitVec.getMsbD bit = true ∧ ¬ (edge = .clip ∧ screenWidth ≤ x + bit) := by
  rw [lands, Bool.and_eq_true, Bool.not_eq_true', Bool.eq_false_iff, ne_eq, Bool.and_eq_true,
    beq_iff_eq, decide_eq_true_iff]

/-- The mask of some bits of a sprite row that starts at column `x`. -/
def bitsMask (edge : Edge) (x : Nat) (sprite : UInt8) : List Nat → BitVec screenWidth
  | [] => 0
  | bit :: rest =>
      (if lands edge x sprite bit then single ((x + bit) % screenWidth) else 0) |||
        bitsMask edge x sprite rest

theorem getMsbD_bitsMask (edge : Edge) (x : Nat) (sprite : UInt8) (bits : List Nat) (column : Nat) :
    (bitsMask edge x sprite bits).getMsbD column = true ↔
      ∃ bit ∈ bits, lands edge x sprite bit = true ∧ column = (x + bit) % screenWidth := by
  induction bits with
  | nil => simp [bitsMask]
  | cons bit rest ih =>
    have hplace : (x + bit) % screenWidth < screenWidth := Nat.mod_lt _ (by decide)
    rw [bitsMask, BitVec.getMsbD_or, Bool.or_eq_true, ih]
    cases hlands : lands edge x sprite bit with
    | true => simp [getMsbD_single hplace, hlands]
    | false => simp [hlands]

theorem bitsMask_cons_of_lands {edge : Edge} {x : Nat} {sprite : UInt8} {bit : Nat}
    (hlands : lands edge x sprite bit = true) (rest : List Nat) :
    bitsMask edge x sprite (bit :: rest) =
      single ((x + bit) % screenWidth) ||| bitsMask edge x sprite rest := by
  rw [bitsMask, hlands, if_pos rfl]

theorem bitsMask_cons_of_not_lands {edge : Edge} {x : Nat} {sprite : UInt8} {bit : Nat}
    (hlands : lands edge x sprite bit = false) (rest : List Nat) :
    bitsMask edge x sprite (bit :: rest) = bitsMask edge x sprite rest := by
  rw [bitsMask, hlands]
  exact BitVec.zero_or

theorem bitsMask_eq_zero {edge : Edge} {x : Nat} {sprite : UInt8} {bits : List Nat}
    (hnone : ∀ bit ∈ bits, lands edge x sprite bit = false) : bitsMask edge x sprite bits = 0 := by
  induction bits with
  | nil => rfl
  | cons bit rest ih =>
    obtain ⟨hbit, hrest⟩ := List.forall_mem_cons.mp hnone
    rw [bitsMask_cons_of_not_lands hbit, ih hrest]

/-- Bits in order: once a bit lies beyond the right edge, none of the later ones lands either. -/
theorem bitsMask_of_beyond {x : Nat} {sprite : UInt8} {bit : Nat} {rest : List Nat}
    (hbeyond : screenWidth ≤ x + bit) (hlater : ∀ later ∈ rest, bit < later) :
    bitsMask .clip x sprite (bit :: rest) = 0 := by
  refine bitsMask_eq_zero fun later hmember => Bool.eq_false_iff.mpr fun hlands => ?_
  refine (lands_eq_true_iff.mp hlands).2 ⟨rfl, ?_⟩
  rcases List.mem_cons.mp hmember with rfl | hmember
  · exact hbeyond
  · exact Nat.le_trans hbeyond (Nat.add_le_add_left (Nat.le_of_lt (hlater later hmember)) x)

/-- Eight bits in a row never come to lie in one column. -/
theorem getMsbD_bitsMask_of_single {edge : Edge} {x : Nat} {sprite : UInt8} {bit : Nat}
    {rest : List Nat} (hlater : ∀ later ∈ rest, bit < later ∧ later < 8) {column : Nat}
    (hheld : (single ((x + bit) % screenWidth)).getMsbD column = true) :
    (bitsMask edge x sprite rest).getMsbD column = false := by
  rw [getMsbD_single (Nat.mod_lt _ (by decide)), decide_eq_true_iff] at hheld
  refine Bool.eq_false_iff.mpr fun hother => ?_
  obtain ⟨later, hmember, -, hsame⟩ := (getMsbD_bitsMask _ _ _ _ _).mp hother
  have hplace : (x + bit) % 64 = (x + later) % 64 := hheld.symm.trans hsame
  have hrange := hlater later hmember
  omega

/-! ## The mask of a sprite row -/

/-- Before it is moved to its column, a sprite row stands at the left of the screen. -/
theorem getMsbD_leftmost (sprite : UInt8) (place : Nat) :
    (sprite.toBitVec ++ 0#56 : BitVec screenWidth).getMsbD place = true ↔
      place < 8 ∧ sprite.toBitVec.getMsbD place = true := by
  rw [BitVec.getMsbD_append]
  split
  · next hbehind =>
    simp
    omega
  · next hinside => simp [Nat.lt_of_not_le hinside]

theorem getMsbD_mask_clip (x : Nat) (sprite : UInt8) {column : Nat}
    (hcolumn : column < screenWidth) :
    (mask .clip x sprite).getMsbD column = true ↔
      ∃ bit < 8, lands .clip x sprite bit = true ∧ column = (x + bit) % screenWidth := by
  have hcolumn : column < 64 := hcolumn
  show ((sprite.toBitVec ++ 0#56 : BitVec screenWidth) >>> x).getMsbD column = true ↔ _
  rw [BitVec.getMsbD_ushiftRight, Bool.and_eq_true, Bool.and_eq_true, getMsbD_leftmost,
    Bool.not_eq_true', decide_eq_true_iff, decide_eq_false_iff_not]
  constructor
  · rintro ⟨-, hright, hbit, hset⟩
    have hplace : column = (x + (column - x)) % 64 := by omega
    have hinside : ¬ screenWidth ≤ x + (column - x) := by omega
    exact ⟨column - x, hbit, by simp [lands, hset, hinside], hplace⟩
  · rintro ⟨bit, hbit, hlands, hplace⟩
    obtain ⟨hset, hbeyond⟩ := lands_eq_true_iff.mp hlands
    have hinside : x + bit < 64 := Nat.lt_of_not_le fun hfar => hbeyond ⟨rfl, hfar⟩
    have hplace : column = (x + bit) % 64 := hplace
    have hoffset : column - x = bit := by omega
    exact ⟨hcolumn, by omega, hoffset ▸ hbit, hoffset ▸ hset⟩

theorem getMsbD_mask_wrap {x : Nat} (hx : x < screenWidth) (sprite : UInt8) {column : Nat}
    (hcolumn : column < screenWidth) :
    (mask .wrap x sprite).getMsbD column = true ↔
      ∃ bit < 8, lands .wrap x sprite bit = true ∧ column = (x + bit) % screenWidth := by
  have hcolumn : column < 64 := hcolumn
  have hx : x < 64 := hx
  have hlands : ∀ bit, lands .wrap x sprite bit = sprite.toBitVec.getMsbD bit := by
    intro bit
    exact Bool.and_true _
  show ((sprite.toBitVec ++ 0#56 : BitVec screenWidth).rotateRight x).getMsbD column = true ↔ _
  rw [BitVec.getMsbD_rotateRight_of_lt hx, Bool.and_eq_true, decide_eq_true_iff,
    Nat.mod_eq_of_lt hx]
  simp only [hlands]
  by_cases hleft : column < x
  · -- the bits that have left the screen on the right come back on the left
    rw [if_pos hleft, getMsbD_leftmost]
    constructor
    · rintro ⟨-, hbit, hset⟩
      refine ⟨_, hbit, hset, ?_⟩
      show column = (x + (64 + column - x) % 64) % 64
      omega
    · rintro ⟨bit, hbit, hset, hplace⟩
      have hplace : column = (x + bit) % 64 := hplace
      have hoffset : (64 + column - x) % 64 = bit := by omega
      exact ⟨hcolumn, hoffset.symm ▸ hbit, hoffset.symm ▸ hset⟩
  · rw [if_neg hleft, getMsbD_leftmost]
    constructor
    · rintro ⟨-, hbit, hset⟩
      refine ⟨_, hbit, hset, ?_⟩
      show column = (x + (column - x)) % 64
      omega
    · rintro ⟨bit, hbit, hset, hplace⟩
      have hplace : column = (x + bit) % 64 := hplace
      have hoffset : column - x = bit := by omega
      exact ⟨hcolumn, hoffset.symm ▸ hbit, hoffset.symm ▸ hset⟩

/-- Over all eight bits the union is the mask of the row. -/
theorem bitsMask_range (edge : Edge) {x : Nat} (hx : x < screenWidth) (sprite : UInt8) :
    bitsMask edge x sprite (List.range 8) = mask edge x sprite := by
  refine BitVec.eq_of_getMsbD_eq fun column hcolumn => ?_
  rw [Bool.eq_iff_iff, getMsbD_bitsMask]
  simp only [List.mem_range]
  cases edge with
  | clip => exact (getMsbD_mask_clip x sprite hcolumn).symm
  | wrap => exact (getMsbD_mask_wrap hx sprite hcolumn).symm

end Screen
end Chip8
