import Chip8.Screen

/-!
# The words of a screen

* `getElem?_words` — the word of a pixel stands where its row and column say.
* `mem_words` — a word is one of two.
* `words_flip` — turning one pixel over changes one word.
-/

namespace Chip8
namespace Screen

/-- Blocks of one width stand one after the other. -/
theorem getElem?_flatMap_blocks {α β : Type} {width : Nat} (f : α → List β) (blocks : List α)
    (hwidth : ∀ block, (f block).length = width) {row column : Nat} (hcolumn : column < width) :
    (blocks.flatMap f)[row * width + column]? =
      blocks[row]?.bind fun block => (f block)[column]? := by
  induction blocks generalizing row with
  | nil => simp
  | cons block rest ih =>
    rw [List.flatMap_cons]
    cases row with
    | zero =>
      have hinside : 0 * width + column < (f block).length := by
        rw [hwidth, Nat.zero_mul, Nat.zero_add]
        exact hcolumn
      rw [List.getElem?_append_left hinside, Nat.zero_mul, Nat.zero_add]
      rfl
    | succ row =>
      have hbehind : (f block).length ≤ (row + 1) * width + column := by
        rw [hwidth, Nat.add_mul, Nat.one_mul]
        omega
      have hplace : (row + 1) * width + column - (f block).length = row * width + column := by
        rw [hwidth, Nat.add_mul, Nat.one_mul]
        omega
      rw [List.getElem?_append_right hbehind, hplace, ih, List.getElem?_cons_succ]

theorem place_lt {row column : Nat} (hrow : row < screenHeight) (hcolumn : column < screenWidth) :
    row * screenWidth + column < screenHeight * screenWidth := by
  have hrow : row < 32 := hrow
  have hcolumn : column < 64 := hcolumn
  show row * 64 + column < 32 * 64
  omega

theorem place_inj {row column y x : Nat} (hcolumn : column < screenWidth) (hx : x < screenWidth)
    (hplace : row * screenWidth + column = y * screenWidth + x) : row = y ∧ column = x := by
  have hcolumn : column < 64 := hcolumn
  have hx : x < 64 := hx
  have hplace : row * 64 + column = y * 64 + x := hplace
  omega

theorem length_pixels (screen : Screen) (row : Nat) : (screen.pixels row).length = screenWidth := by
  simp [pixels]

/-- The word of a pixel stands where its row and column say. -/
theorem getElem?_words (screen : Screen) {row column : Nat} (hrow : row < screenHeight)
    (hcolumn : column < screenWidth) :
    screen.words[row * screenWidth + column]? = some (word (screen.pixel column row)) := by
  have hwidth : ∀ row, ((screen.pixels row).map word).length = screenWidth := by
    intro row
    rw [List.length_map, length_pixels]
  rw [words, getElem?_flatMap_blocks _ _ hwidth hcolumn, List.getElem?_range hrow]
  simp [pixels, hcolumn]

theorem length_words (screen : Screen) : screen.words.length = screenHeight * screenWidth := by
  simp only [words, List.length_flatMap, List.length_map, length_pixels]
  rfl

/-- Every word is the word of a pixel that is on or off. -/
theorem mem_words {screen : Screen} {value : UInt32} (hvalue : value ∈ screen.words) :
    value = word false ∨ value = word true := by
  obtain ⟨row, -, hrow⟩ := List.mem_flatMap.mp hvalue
  obtain ⟨lit, -, rfl⟩ := List.mem_map.mp hrow
  cases lit
  · exact .inl rfl
  · exact .inr rfl

/-- Two lists of words are the same if they agree pixel by pixel. -/
theorem words_ext {first second : List UInt32}
    (hfirst : first.length = screenHeight * screenWidth)
    (hsecond : second.length = screenHeight * screenWidth)
    (hsame : ∀ row < screenHeight, ∀ column < screenWidth,
      first[row * screenWidth + column]? = second[row * screenWidth + column]?) :
    first = second := by
  refine List.ext_getElem? fun place => ?_
  by_cases hinside : place < screenHeight * screenWidth
  · have hsplit : place = place / screenWidth * screenWidth + place % screenWidth := by
      rw [Nat.mul_comm]
      exact (Nat.div_add_mod place screenWidth).symm
    have hrow : place / screenWidth < screenHeight := Nat.div_lt_of_lt_mul (by omega)
    rw [hsplit]
    exact hsame _ hrow _ (Nat.mod_lt _ (by decide))
  · rw [List.getElem?_eq_none (by omega), List.getElem?_eq_none (by omega)]

@[simp] theorem word_xor_true (lit : Bool) : word lit ^^^ word true = word (!lit) := by
  cases lit <;> rfl

theorem word_ne_word_false (lit : Bool) : (word lit != word false) = lit := by
  cases lit <;> rfl

/-- The mask of a single column. -/
def single (column : Nat) : BitVec screenWidth :=
  BitVec.twoPow screenWidth (screenWidth - 1 - column)

theorem getMsbD_single {column : Nat} (hcolumn : column < screenWidth) (x : Nat) :
    (single column).getMsbD x = decide (x = column) := by
  rw [single, BitVec.getMsbD_twoPow]
  have hplace : screenWidth - (screenWidth - 1 - column) - 1 = column := by omega
  have hinside : screenWidth - 1 - column < screenWidth := by omega
  rw [hplace, decide_eq_true hinside, Bool.true_and]

/-- Turning one pixel over changes its word and no other. -/
theorem words_flip (screen : Screen) {row column : Nat} (hrow : row < screenHeight)
    (hcolumn : column < screenWidth) :
    (screen.flip row (single column)).words =
      screen.words.set (row * screenWidth + column) (word (!screen.pixel column row)) := by
  refine words_ext (length_words _) (by rw [List.length_set, length_words]) ?_
  intro y hy x hx
  rw [getElem?_words _ hy hx, List.getElem?_set, getElem?_words _ hy hx, pixel_flip,
    getMsbD_single hcolumn]
  by_cases hplace : row * screenWidth + column = y * screenWidth + x
  · -- row and column can be told from the place
    obtain ⟨rfl, rfl⟩ := place_inj hcolumn hx hplace
    have hinside : row * screenWidth + column < screen.words.length := by
      rw [length_words]
      exact place_lt hrow hcolumn
    simp [hinside, hrow]
  · have hother : ¬ (y = row ∧ x = column) := by
      rintro ⟨rfl, rfl⟩
      exact hplace rfl
    rw [if_neg hplace]
    by_cases hline : y = row
    · have hbeside : x ≠ column := fun hsame => hother ⟨hline, hsame⟩
      simp [hline, hbeside]
    · simp [hline]

theorem words_blank : blank.words = List.replicate (screenHeight * screenWidth) (word false) := by
  refine words_ext (length_words _) List.length_replicate ?_
  intro row hrow column hcolumn
  rw [getElem?_words _ hrow hcolumn, pixel_blank, List.getElem?_replicate,
    if_pos (place_lt hrow hcolumn)]

end Screen
end Chip8
