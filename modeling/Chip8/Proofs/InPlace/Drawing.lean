import Chip8.Proofs.InPlace.Agreement
import Chip8.Proofs.Screen.Covering

/-!
# What drawing turns over

* `Board.withScreen_screen` — a board whose words are all on or off shows a screen.
* `machine_of_draw`, `cycle_of_draw` — a draw instruction that succeeds, on the machine.
* `drawing_turns_covered` — painting pixel by pixel turns over what the sprite covers and tells
  whether something of it was on, and the draw instruction does so with the bytes at the index
  register, at the place that two registers hold before the flag is written.
-/

namespace Chip8

/-- A board whose words are all on or off shows a screen. -/
theorem Board.withScreen_screen {board : Board} (hsize : board.pixels.size = 2048)
    (hwords : ∀ word ∈ board.pixels, word = 0 ∨ word = 0xFFFFFFFF) :
    board.withScreen board.screen = board := by
  have hlength : board.pixels.toList.length = screenHeight * screenWidth :=
    Array.length_toList.trans hsize
  have hsame : board.screen.words = board.pixels.toList := by
    refine Screen.words_ext (Screen.length_words _) hlength fun row hrow column hcolumn => ?_
    have hinside : row * screenWidth + column < board.pixels.size := by
      rw [hsize]
      exact Screen.place_lt hrow hcolumn
    obtain ⟨word, hword⟩ : ∃ word, board.pixels[row * screenWidth + column]? = some word :=
      ⟨_, Array.getElem?_eq_getElem hinside⟩
    rw [Screen.getElem?_words _ hrow hcolumn, board.pixel_screen hrow hcolumn,
      Array.getElem?_toList, hword]
    rcases hwords word (Array.mem_of_getElem? hword) with rfl | rfl <;> rfl
  unfold Board.withScreen
  rw [hsame, Array.toArray_toList]

namespace Screen

/-- The word of a pixel after drawing, and before. -/
theorem getElem?_words_draw (edge : Edge) (x y : Nat) {sprite : List UInt8}
    (hlength : sprite.length ≤ screenHeight) (screen : Screen) {column line : Nat}
    (hcolumn : column < screenWidth) (hline : line < screenHeight) :
    (Covers edge (x % screenWidth) (y % screenHeight) sprite column line →
      (draw edge x y sprite screen).1.words[line * screenWidth + column]? =
        screen.words[line * screenWidth + column]?.map (· ^^^ 0xFFFFFFFF)) ∧
    (¬ Covers edge (x % screenWidth) (y % screenHeight) sprite column line →
      (draw edge x y sprite screen).1.words[line * screenWidth + column]? =
        screen.words[line * screenWidth + column]?) := by
  have hturned := pixel_draw edge x y hlength screen hcolumn hline
  rw [getElem?_words _ hline hcolumn, getElem?_words _ hline hcolumn, ← hturned]
  constructor
  · intro hother
    rw [Bool.eq_not_of_ne hother]
    exact congrArg some (word_xor_true _).symm
  · intro hsame
    rw [Classical.not_not.mp hsame]

theorem word_eq_on_iff (lit : Bool) : some (word lit) = some 0xFFFFFFFF ↔ lit = true := by
  cases lit <;> decide

end Screen

namespace Machine

open Screen

/-- The sprite of a draw instruction: the bytes from the index register on. -/
def sprite (machine : Machine) (rows : Digit) : List UInt8 :=
  machine.memory.slice machine.index.toNat rows.val

theorem length_sprite_le (machine : Machine) (rows : Digit) :
    (machine.sprite rows).length ≤ screenHeight := by
  have hrows := rows.isLt
  rw [sprite, Memory.length_slice]
  exact Nat.le_of_lt (Nat.lt_trans hrows (by decide))

/-- The screen and the report of a draw instruction. -/
def drawn (machine : Machine) (x y rows : Digit) : Screen × Bool :=
  Screen.draw machine.dialect.edge (machine.registers.get x).toNat (machine.registers.get y).toNat
    (machine.sprite rows) machine.screen

/-- A draw instruction that succeeds draws bytes that lie in memory, writes the flag and goes on. -/
theorem machine_of_draw {machine : Machine} {x y rows : Digit} {updated : Bool}
    (hread : Instruction.decode machine.word = some (.draw x y rows))
    (hdone : machine.cycle.result = .ok updated) :
    machine.index.toNat + rows.val ≤ memorySize ∧
      machine.cycle.machine =
        { machine.beginCycle.goOn.setRegister Registers.flag (flagOf (machine.drawn x y rows).2) with
          screen := (machine.drawn x y rows).1 } := by
  obtain ⟨instruction, hdue, heffect, -⟩ := effect_of_ok hdone
  obtain rfl := Option.some.inj ((due_eq_some_iff.mp hdue).2.2.symm.trans hread)
  generalize machine.cycle.machine = next at heffect
  cases heffect with
  | draw hbytes hdrawn =>
    obtain ⟨hinside, rfl⟩ := Memory.read_eq_ok_iff.mp hbytes
    have hdrawn : machine.drawn x y rows = _ := hdrawn
    rw [hdrawn]
    exact ⟨hinside, rfl⟩

theorem cycle_of_draw {machine : Machine} {x y rows : Digit} {updated : Bool}
    (hread : Instruction.decode machine.word = some (.draw x y rows))
    (hdone : machine.cycle.result = .ok updated) :
    machine.index.toNat + rows.val ≤ memorySize ∧
      machine.cycle.machine.screen = (machine.drawn x y rows).1 ∧
      machine.cycle.machine.registers =
        machine.registers.set Registers.flag (flagOf (machine.drawn x y rows).2) := by
  obtain ⟨hinside, hmachine⟩ := machine_of_draw hread hdone
  rw [hmachine]
  exact ⟨hinside, rfl, rfl⟩

/-- Painting a sprite of at most 32 rows on a board whose words are all on or off turns over exactly
the pixels that the sprite covers, and tells whether one of them was on.  A draw instruction that
succeeds does this with the bytes at the index register, at the place that its two registers hold
before the flag is written, and the flag tells the same; on the board it does what it does on the
machine. -/
theorem drawing_turns_covered :
    (∀ {ε : Type} (edge : Edge) (x y : Nat) (sprite : List UInt8) (board : Board),
      board.pixels.size = 2048 → (∀ word ∈ board.pixels, word = 0 ∨ word = 0xFFFFFFFF) →
      sprite.length ≤ 32 →
      ∃ hit pixels,
        (Work.paint edge x y sprite : Work ε Bool).on board = (.done hit, { board with pixels }) ∧
        pixels.size = 2048 ∧
        (∀ column < 64, ∀ line < 32,
          (Covers edge (x % 64) (y % 32) sprite column line →
            pixels[line * 64 + column]? =
              board.pixels[line * 64 + column]?.map (· ^^^ 0xFFFFFFFF)) ∧
          (¬ Covers edge (x % 64) (y % 32) sprite column line →
            pixels[line * 64 + column]? = board.pixels[line * 64 + column]?)) ∧
        (hit = true ↔ ∃ column < 64, ∃ line < 32,
          Covers edge (x % 64) (y % 32) sprite column line ∧
            board.pixels[line * 64 + column]? = some 0xFFFFFFFF)) ∧
    ∀ (machine : Machine) (x y rows : Digit) (updated : Bool),
      Instruction.decode machine.word = some (.draw x y rows) →
      machine.cycle.result = .ok updated →
      let sprite := machine.memory.slice machine.index.toNat rows.val
      let covers := Covers machine.dialect.edge ((machine.registers.get x).toNat % 64)
        ((machine.registers.get y).toNat % 32) sprite
      let hit := ∃ column < 64, ∃ line < 32,
        covers column line ∧ machine.screen.pixel column line = true
      machine.index.toNat + rows.val ≤ 4096 ∧
        (∀ column < 64, ∀ line < 32,
          machine.cycle.machine.screen.pixel column line ≠ machine.screen.pixel column line ↔
            covers column line) ∧
        (hit → machine.cycle.machine.registers.get Registers.flag = 1) ∧
        (¬ hit → machine.cycle.machine.registers.get Registers.flag = 0) ∧
        (machine.Reachable → machine.cycle.machine.cycles < 0x10000000000000000 →
          Work.cycle.on machine.board = (.done updated, machine.cycle.machine.board)) := by
  constructor
  · -- such a board shows a screen, on which painting pixel by pixel is drawing row by row
    intro ε edge x y sprite board hsize hwords hlength
    have hboard := Board.withScreen_screen hsize hwords
    have hpixels : board.pixels = board.screen.words.toArray :=
      congrArg Board.pixels hboard.symm
    have hpaint := Work.paint_apply (ε := ε) edge x y sprite board board.screen
    rw [hboard] at hpaint
    refine ⟨_, _, hpaint, Screen.length_words _, fun column hcolumn line hline => ?_, ?_⟩
    · rw [hpixels, List.getElem?_toArray, List.getElem?_toArray]
      exact getElem?_words_draw edge x y hlength board.screen hcolumn hline
    · rw [draw_hit_iff edge x y hlength board.screen]
      refine exists_congr fun column => and_congr_right fun hcolumn => exists_congr fun line =>
        and_congr_right fun hline => and_congr_right fun _ => ?_
      have hfound := getElem?_words board.screen hline hcolumn
      rw [hpixels, List.getElem?_toArray]
      exact (hfound ▸ word_eq_on_iff _).symm
  · -- the flag is written last, so the place is that of the registers before the cycle
    intro machine x y rows updated hread hdone sprite covers hit
    have hlength := machine.length_sprite_le rows
    obtain ⟨hinside, hscreen, hregisters⟩ := cycle_of_draw hread hdone
    have hhit : (machine.drawn x y rows).2 = true ↔ hit :=
      draw_hit_iff machine.dialect.edge _ _ hlength machine.screen
    have hflag : machine.cycle.machine.registers.get Registers.flag =
        flagOf (machine.drawn x y rows).2 := by
      rw [hregisters, Registers.get_set, if_pos rfl]
    refine ⟨hinside, fun column hcolumn line hline => ?_, fun h => ?_, fun h => ?_, ?_⟩
    · rw [hscreen]
      exact pixel_draw machine.dialect.edge _ _ hlength machine.screen hcolumn hline
    · rw [hflag, hhit.mpr h]
      rfl
    · rw [hflag, Bool.eq_false_iff.mpr fun hlit => h (hhit.mp hlit)]
      rfl
    · exact fun hreach => Work.cycle_apply_done hreach.sound hdone

/-- A glyph is drawn across the corner of a wrapping screen, at a column that the flag register
holds, and drawn again, which turns everything off. -/
theorem drawing_turns_covered_corner :
    let program : Program := ⟨[0x6F, 0x3E, 0x61, 0x1F, 0xDF, 0x15, 0x6F, 0x3E, 0xDF, 0x15]⟩
    let settings : Settings := { dialect := { edge := .wrap } }
    let start := loaded program settings (.ofSeed 0)
    let machine := start.after [.cycle, .cycle, .cycle, .cycle]
    let sprite := machine.memory.slice 0 5
    (boot program settings (.ofSeed 0)).result = .ok start ∧
      (Instruction.decode machine.word = some (.draw (.ofNat 15) (.ofNat 1) (.ofNat 5)) ∧
        machine.cycle.result = .ok true ∧
        machine.cycle.machine.cycles < 0x10000000000000000) ∧
      (machine.registers.get Registers.flag = 62 ∧ machine.screen.pixel 1 31 = true) ∧
      (machine.cycle.machine.screen.pixel 1 31 = false ∧
        machine.cycle.machine.registers.get Registers.flag = 1 ∧
        Work.cycle.on machine.board = (.done true, machine.cycle.machine.board)) ∧
      ∃ hit pixels,
        (Work.paint .wrap 62 31 sprite : Work Fault Bool).on machine.board =
            (.done hit, { machine.board with pixels }) ∧
          hit = true ∧ pixels[31 * 64 + 1]? = some 0 := by
  intro program settings start machine sprite
  have hboot : (boot program settings (.ofSeed 0)).result = .ok start :=
    boot_eq_ok_iff.mpr ⟨by decide, by decide, by decide, rfl⟩
  have hreach : machine.Reachable := ⟨_, _, _, start, _, hboot, rfl⟩
  obtain ⟨⟨hread, hlive, hfault, hroom⟩, hflag, hy, hindex, hedge, hlit, hsprite⟩ :
      (Instruction.decode machine.word = some (.draw (.ofNat 15) (.ofNat 1) (.ofNat 5)) ∧
        machine.status ≠ .crashed ∧ machine.fault? = none ∧
        machine.cycle.machine.cycles < 0x10000000000000000) ∧
        machine.registers.get (.ofNat 15) = 62 ∧ machine.registers.get (.ofNat 1) = 31 ∧
        machine.index = 0 ∧ machine.dialect.edge = .wrap ∧ machine.screen.pixel 1 31 = true ∧
        sprite = [0xF0, 0x90, 0x90, 0x90, 0xF0] := by
    decide +kernel
  have hdone : machine.cycle.result = .ok true := by
    obtain ⟨-, instruction, next, records, hdecode, -, hcycle⟩ := cycle_of_done hlive hfault
    obtain rfl := Option.some.inj (hdecode.symm.trans hread)
    rw [hcycle]
    rfl
  -- the last bit of the upper edge of the glyph comes to lie behind the corner
  have hcovers : Covers .wrap (62 % 64) (31 % 32) sprite 1 31 := by
    rw [hsprite]
    exact ⟨0, 0xF0, 3, rfl, by decide, by decide, rfl, rfl⟩
  obtain ⟨-, hturned, hhit, -, hboard⟩ := drawing_turns_covered.2 machine _ _ _ true hread hdone
  rw [hedge, hflag, hy, hindex] at hhit
  have hother := hturned 1 (by decide) 31 (by decide)
  rw [hedge, hflag, hy, hindex] at hother
  have hoff := Bool.eq_not_of_ne (hother.mpr hcovers)
  rw [hlit] at hoff
  have hword : machine.board.pixels[31 * 64 + 1]? = some 0xFFFFFFFF := by
    refine (List.getElem?_toArray.trans
      (getElem?_words machine.screen (by decide) (by decide))).trans ?_
    rw [hlit]
    rfl
  have hwords : ∀ word ∈ machine.board.pixels, word = 0 ∨ word = 0xFFFFFFFF := fun _ hword =>
    mem_words (List.mem_toArray.mp hword)
  obtain ⟨hit, pixels, hpaint, -, hpixels, hsaid⟩ :=
    drawing_turns_covered.1 (ε := Fault) .wrap 62 31 sprite machine.board (length_words _) hwords
      (by rw [hsprite]; decide)
  refine ⟨hboot, ⟨hread, hdone, hroom⟩, ⟨hflag, hlit⟩, ⟨hoff, ?_, hboard hreach hroom⟩,
    hit, pixels, hpaint, ?_, ?_⟩
  · exact hhit ⟨1, by decide, 31, by decide, hcovers, hlit⟩
  · exact hsaid.mpr ⟨1, by decide, 31, by decide, hcovers, hword⟩
  · rw [(hpixels 1 (by decide) 31 (by decide)).1 hcovers, hword]
    rfl

end Machine
end Chip8
