import Chip8.Proofs.InPlace.Drawing
import Chip8.Proofs.Machine.Footprint
import Chip8.Proofs.Screen.Overprint

/-!
# Painting over what has been painted

Painting goes from pixel to pixel of a frame and reads each before it writes it.  Still, what it
turns over depends on the sprite, its place and its edges only, whatever words the frame holds.

* `overprint` — the words of a frame, each turned over by the ink at its place.
* `Work.Inks` — work that comes to an ink: `touch_inks` for one pixel, `inks_bind` for work after
  work, `exists_inks_paint` for a sprite.
* `paint_inks` — the ink of a drawing, as a blank screen tells it.
* `Work.paintAll`, `paintAll_apply` — drawings one after the other.
* `drawing_cycle`, `drawn_again` — a draw instruction that is carried out twice in a row.
* `drawings_commute_and_cancel` — drawings may change places, and two that are the same cancel.
-/

namespace Chip8

open Screen (word)

/-! ## Ink -/

/-- The words of a frame, each turned over by the ink at its place. -/
def overprint (ink : Nat → UInt32) (pixels : Array UInt32) : Array UInt32 :=
  pixels.mapIdx fun place found => found ^^^ ink place

theorem size_overprint (ink : Nat → UInt32) (pixels : Array UInt32) :
    (overprint ink pixels).size = pixels.size :=
  Array.size_mapIdx

theorem getElem?_overprint (ink : Nat → UInt32) (pixels : Array UInt32) (place : Nat) :
    (overprint ink pixels)[place]? = pixels[place]?.map (· ^^^ ink place) :=
  Array.getElem?_mapIdx

theorem overprint_overprint (first second : Nat → UInt32) (pixels : Array UInt32) :
    overprint second (overprint first pixels) =
      overprint (fun place => first place ^^^ second place) pixels := by
  refine Array.ext_getElem? fun place => ?_
  rw [getElem?_overprint, getElem?_overprint, getElem?_overprint, Option.map_map]
  exact congrArg (Option.map · _) (funext fun found => UInt32.xor_assoc ..)

theorem overprint_none (pixels : Array UInt32) : overprint (fun _ => 0) pixels = pixels := by
  refine Array.ext_getElem? fun place => ?_
  rw [getElem?_overprint]
  simp

/-- The ink of a single pixel. -/
def dot (row column place : Nat) : UInt32 :=
  if place = row * screenWidth + column then word true else 0

/-- Ink beyond the frame does not show. -/
theorem overprint_congr {ink other : Nat → UInt32} {pixels : Array UInt32}
    (hsame : ∀ place < pixels.size, ink place = other place) :
    overprint ink pixels = overprint other pixels := by
  refine Array.ext_getElem? fun place => ?_
  rw [getElem?_overprint, getElem?_overprint]
  by_cases hinside : place < pixels.size
  · rw [hsame place hinside]
  · rw [Array.getElem?_eq_none (Nat.le_of_not_lt hinside)]
    rfl

namespace Work

variable {ε α β : Type}

/-- Work is done on every frame, turns its words over by some ink and leaves all else alone. -/
def Inks (work : Work ε α) (ink : Nat → UInt32) : Prop :=
  ∀ board : Board, board.pixels.size = screenHeight * screenWidth →
    ∃ value, work.on board = (.done value, { board with pixels := overprint ink board.pixels })

theorem inks_pure (value : α) : Inks (pure value : Work ε α) fun _ => 0 := fun board _ =>
  ⟨value, by rw [pure_apply, overprint_none]⟩

theorem inks_bind {work : Work ε α} {next : α → Work ε β} {first second : Nat → UInt32}
    (hwork : work.Inks first) (hnext : ∀ value, (next value).Inks second) :
    (work >>= next).Inks fun place => first place ^^^ second place := by
  intro board hsize
  obtain ⟨value, hfirst⟩ := hwork board hsize
  have hkept : (overprint first board.pixels).size = screenHeight * screenWidth :=
    (size_overprint ..).trans hsize
  obtain ⟨last, hsecond⟩ := hnext value { board with pixels := overprint first board.pixels } hkept
  refine ⟨last, ?_⟩
  rw [bind_done hfirst, hsecond, overprint_overprint]

theorem inks_demand {condition : Prop} [Decidable condition] {slip : Slip} {work : Work ε α}
    {ink : Nat → UInt32} (hcondition : condition) (hwork : work.Inks ink) :
    (demand condition slip >>= fun _ => work).Inks ink := by
  intro board hsize
  rw [bind_done (demand_apply hcondition slip board)]
  exact hwork board hsize

/-- One pixel is turned over, whatever word stands for it. -/
theorem touch_inks {row column : Nat} (hrow : row < screenHeight) (hcolumn : column < screenWidth) :
    Inks (touch row column : Work ε Bool) (dot row column) := by
  intro board hsize
  have hplace : row * screenWidth + column < board.pixels.size :=
    hsize ▸ Screen.place_lt hrow hcolumn
  have hframe : (row + 1) * screenWidth ≤ board.pixels.size :=
    hsize ▸ Nat.mul_le_mul_right screenWidth hrow
  have hfound : board.pixels[row * screenWidth + column]? =
      some board.pixels[row * screenWidth + column] := Array.getElem?_eq_getElem hplace
  refine ⟨board.pixels[row * screenWidth + column] != word false, ?_⟩
  unfold touch
  rw [bind_done (look_apply _), bind_done (demand_apply hframe _ _),
    bind_done (demand_apply hcolumn _ _), bind_done (look_apply _),
    bind_done (entry_apply hfound _), bind_done (alter_apply _ _), pure_apply]
  refine congrArg (fun pixels => (_, { board with pixels })) (Array.ext_getElem? fun place => ?_)
  rw [getElem?_overprint, Array.getElem?_setIfInBounds, dot]
  by_cases hhere : row * screenWidth + column = place
  · subst hhere
    rw [if_pos rfl, if_pos hplace, hfound, if_pos rfl]
    rfl
  · rw [if_neg hhere, if_neg (Ne.symm hhere)]
    simp

/-! ## The ink of a sprite -/

/-- The bits of a row come to an ink that depends neither on the frame nor on what was hit. -/
theorem exists_inks_paintBits (edge : Edge) (x : Nat) {row : Nat} (hrow : row < screenHeight)
    (sprite : UInt8) (bits : List Nat) (hbits : ∀ bit ∈ bits, bit < 8) :
    ∃ ink, ∀ hit, Inks (paintBits edge x row sprite bits hit : Work ε Bool) ink := by
  induction bits with
  | nil => exact ⟨_, inks_pure⟩
  | cons bit rest ih =>
    obtain ⟨hbit, hrest⟩ := List.forall_mem_cons.mp hbits
    obtain ⟨later, hlater⟩ := ih hrest
    by_cases hclear : sprite &&& (0x80 >>> UInt8.ofNat bit) = 0
    · refine ⟨later, fun hit => inks_demand hbit ?_⟩
      rw [if_pos hclear]
      exact hlater hit
    by_cases hbeyond : edge = .clip ∧ screenWidth ≤ x + bit
    · -- here the row ends, whatever bits are left
      refine ⟨fun _ => 0, fun hit => inks_demand hbit ?_⟩
      rw [if_neg hclear, if_pos hbeyond]
      exact inks_pure hit
    · have hcolumn : (x + bit) % screenWidth < screenWidth := Nat.mod_lt _ (by decide)
      let touched := dot row ((x + bit) % screenWidth)
      refine ⟨fun place => touched place ^^^ later place, fun hit => inks_demand hbit ?_⟩
      rw [if_neg hclear, if_neg hbeyond]
      exact inks_bind (touch_inks hrow hcolumn) fun lit => hlater (hit || lit)

theorem exists_inks_paintRows (edge : Edge) (x y : Nat) (sprite : List UInt8) :
    ∃ ink, ∀ hit, Inks (paintRows edge x y sprite hit : Work ε Bool) ink := by
  induction sprite generalizing y with
  | nil => exact ⟨_, inks_pure⟩
  | cons byte rest ih =>
    by_cases hbeyond : edge = .clip ∧ screenHeight ≤ y
    · refine ⟨fun _ => 0, fun hit => ?_⟩
      rw [paintRows, if_pos hbeyond]
      exact inks_pure hit
    · have hline : y % screenHeight < screenHeight := Nat.mod_lt _ (by decide)
      obtain ⟨first, hfirst⟩ := exists_inks_paintBits (ε := ε) edge x hline byte (List.range 8)
        fun bit hbit => List.mem_range.mp hbit
      obtain ⟨second, hsecond⟩ := ih (y + 1)
      refine ⟨fun place => first place ^^^ second place, fun hit => ?_⟩
      rw [paintRows, if_neg hbeyond]
      exact inks_bind (hfirst hit) hsecond

end Work

namespace Screen.Drawing

/-- The ink of a drawing: a word for each pixel that it turns over. -/
def ink (drawing : Drawing) (place : Nat) : UInt32 :=
  word ((drawing.print (place / screenWidth)).getMsbD (place % screenWidth))

/-- The words of a frame after a drawing. -/
def printed (pixels : Array UInt32) (drawing : Drawing) : Array UInt32 :=
  overprint drawing.ink pixels

theorem printed_comm (pixels : Array UInt32) (first second : Drawing) :
    printed (printed pixels first) second = printed (printed pixels second) first := by
  rw [printed, printed, printed, printed, overprint_overprint, overprint_overprint]
  exact overprint_congr fun place _ => UInt32.xor_comm ..

theorem printed_printed (pixels : Array UInt32) (drawing : Drawing) :
    printed (printed pixels drawing) drawing = pixels := by
  rw [printed, printed, overprint_overprint]
  exact (overprint_congr fun place _ => UInt32.xor_self).trans (overprint_none pixels)

end Screen.Drawing

namespace Work

open Screen

variable {ε : Type}

theorem exists_inks_paint (drawing : Drawing) :
    ∃ ink, Inks (paint drawing.edge drawing.x drawing.y drawing.sprite : Work ε Bool) ink := by
  obtain ⟨ink, hink⟩ := exists_inks_paintRows (ε := ε) drawing.edge (drawing.x % screenWidth)
    (drawing.y % screenHeight) drawing.sprite
  exact ⟨ink, hink false⟩

/-- A blank frame tells the ink of a drawing, and on every other frame the ink is the same. -/
theorem paint_inks (drawing : Drawing) :
    Inks (paint drawing.edge drawing.x drawing.y drawing.sprite : Work ε Bool) drawing.ink := by
  obtain ⟨ink, hink⟩ := exists_inks_paint (ε := ε) drawing
  intro board hsize
  have hblank : (Drawing.onto blank drawing).words.toArray =
      overprint ink blank.words.toArray := by
    obtain ⟨hit, hpaint⟩ := hink (board.withScreen blank) (length_words blank)
    have hdrawn := paint_apply (ε := ε) drawing.edge drawing.x drawing.y drawing.sprite board blank
    have hboards := congrArg Prod.snd (hdrawn.symm.trans hpaint)
    have hpixels := congrArg Board.pixels hboards
    simpa only [Board.withScreen, Drawing.onto] using hpixels
  have hsame : ∀ place < board.pixels.size, ink place = drawing.ink place := by
    intro place hplace
    have hrow : place / screenWidth < screenHeight := Nat.div_lt_of_lt_mul (hsize ▸ hplace)
    have hcolumn : place % screenWidth < screenWidth := Nat.mod_lt _ (by decide)
    have hsplit : place / screenWidth * screenWidth + place % screenWidth = place :=
      Nat.div_add_mod' place screenWidth
    have hfound := congrArg (·[place / screenWidth * screenWidth + place % screenWidth]?) hblank
    simp only [getElem?_overprint, List.getElem?_toArray, getElem?_words _ hrow hcolumn] at hfound
    rw [hsplit, pixel_blank, pixel, Drawing.row_onto _ _ hrow, row_blank,
      BitVec.getMsbD_xor] at hfound
    simpa [word, Drawing.ink] using hfound.symm
  obtain ⟨hit, hpaint⟩ := hink board hsize
  rw [overprint_congr hsame] at hpaint
  exact ⟨hit, hpaint⟩

/-! ## Drawings one after the other -/

/-- Paints drawings one after the other. -/
def paintAll : List Drawing → Work ε Unit
  | [] => return ()
  | drawing :: rest => do
      let _ ← paint drawing.edge drawing.x drawing.y drawing.sprite
      paintAll rest

/-- Painting some drawings leaves a frame with the ink of one after the other. -/
theorem paintAll_apply (drawings : List Drawing) (board : Board)
    (hsize : board.pixels.size = screenHeight * screenWidth) :
    (drawings.foldl Drawing.printed board.pixels).size = screenHeight * screenWidth ∧
      (paintAll drawings : Work ε Unit).on board =
        (.done (), { board with pixels := drawings.foldl Drawing.printed board.pixels }) := by
  induction drawings generalizing board with
  | nil => exact ⟨hsize, rfl⟩
  | cons drawing rest ih =>
    obtain ⟨hit, hpaint⟩ := paint_inks (ε := ε) drawing board hsize
    have hkept : (Drawing.printed board.pixels drawing).size = screenHeight * screenWidth :=
      (size_overprint ..).trans hsize
    obtain ⟨hlast, hrest⟩ := ih { board with pixels := Drawing.printed board.pixels drawing } hkept
    refine ⟨hlast, ?_⟩
    rw [paintAll, bind_done hpaint]
    exact hrest

end Work

/-! ## Drawing on a machine -/

namespace Machine

open Screen

/-- What a draw instruction draws, and where. -/
def drawing (machine : Machine) (x y rows : Digit) : Drawing where
  edge := machine.dialect.edge
  x := (machine.registers.get x).toNat
  y := (machine.registers.get y).toNat
  sprite := machine.sprite rows

/-- A draw instruction that does not take its place from the flag finds its drawing again. -/
theorem drawing_cycle {machine : Machine} {x y rows : Digit} {updated : Bool}
    (hx : x ≠ Registers.flag) (hy : y ≠ Registers.flag)
    (hread : Instruction.decode machine.word = some (.draw x y rows))
    (hdone : machine.cycle.result = .ok updated) :
    machine.cycle.machine.drawing x y rows = machine.drawing x y rows := by
  obtain ⟨-, hmachine⟩ := machine_of_draw hread hdone
  rw [hmachine]
  show Drawing.mk _ ((machine.registers.set _ _).get x).toNat
    ((machine.registers.set _ _).get y).toNat _ = _
  rw [Registers.get_set_of_ne _ _ hx.symm, Registers.get_set_of_ne _ _ hy.symm]
  rfl

/-- The second of two draw instructions draws the same over what the first has left. -/
theorem drawn_again {machine : Machine} {x y rows : Digit} {updated : Bool}
    (hx : x ≠ Registers.flag) (hy : y ≠ Registers.flag)
    (hread : Instruction.decode machine.word = some (.draw x y rows))
    (hdone : machine.cycle.result = .ok updated) :
    let drawing := machine.drawing x y rows
    machine.cycle.machine.drawn x y rows =
      Screen.draw drawing.edge drawing.x drawing.y drawing.sprite
        (Drawing.onto machine.screen drawing) := by
  obtain ⟨-, hscreen, -⟩ := cycle_of_draw hread hdone
  have hfound := drawing_cycle hx hy hread hdone
  intro drawing
  show Screen.draw (machine.cycle.machine.drawing x y rows).edge
    (machine.cycle.machine.drawing x y rows).x (machine.cycle.machine.drawing x y rows).y
    (machine.cycle.machine.drawing x y rows).sprite machine.cycle.machine.screen = _
  rw [hfound, hscreen]
  rfl

/-- Painting drawings one after the other on a frame of any words comes to the same in any order,
and two drawings that are the same come to nothing, whatever is painted before, between and behind
them; and so does drawing on a screen.  On a machine, a draw instruction that is carried out twice
in a row and does not take its place from the flag restores the screen, and the flag then tells
whether something of the sprite came to lie on a pixel that was off. -/
theorem drawings_commute_and_cancel :
    (∀ {ε : Type} (board : Board), board.pixels.size = 2048 →
      (∀ first second : List Drawing, first.Perm second → ∃ pixels, pixels.size = 2048 ∧
        (Work.paintAll first : Work ε Unit).on board = (.done (), { board with pixels }) ∧
        (Work.paintAll second : Work ε Unit).on board = (.done (), { board with pixels })) ∧
      ∀ (before between behind : List Drawing) (twice : Drawing), ∃ pixels, pixels.size = 2048 ∧
        (Work.paintAll (before ++ twice :: (between ++ twice :: behind)) : Work ε Unit).on board =
          (.done (), { board with pixels }) ∧
        (Work.paintAll (before ++ (between ++ behind)) : Work ε Unit).on board =
          (.done (), { board with pixels })) ∧
    (∀ screen : Screen,
      (∀ first second : List Drawing, first.Perm second →
        first.foldl Drawing.onto screen = second.foldl Drawing.onto screen) ∧
      ∀ (before between behind : List Drawing) (twice : Drawing),
        (before ++ twice :: (between ++ twice :: behind)).foldl Drawing.onto screen =
          (before ++ (between ++ behind)).foldl Drawing.onto screen) ∧
    ∀ (machine : Machine) (x y rows : Digit) (updated again : Bool),
      x ≠ Registers.flag → y ≠ Registers.flag →
      Instruction.decode machine.word = some (.draw x y rows) →
      machine.cycle.result = .ok updated →
      machine.cycle.machine.word = machine.word →
      machine.cycle.machine.cycle.result = .ok again →
      let sprite := machine.memory.slice machine.index.toNat rows.val
      let covers := Covers machine.dialect.edge ((machine.registers.get x).toNat % 64)
        ((machine.registers.get y).toNat % 32) sprite
      let lands := ∃ column < 64, ∃ line < 32,
        covers column line ∧ machine.screen.pixel column line = false
      let last := machine.cycle.machine.cycle.machine
      last.screen = machine.screen ∧
        (lands → last.registers.get Registers.flag = 1) ∧
        (¬ lands → last.registers.get Registers.flag = 0) := by
  refine ⟨fun {ε} board hsize => ⟨?_, ?_⟩, fun screen => ⟨?_, ?_⟩, ?_⟩
  · intro first second hperm
    obtain ⟨hlast, hfirst⟩ := Work.paintAll_apply (ε := ε) first board hsize
    obtain ⟨-, hsecond⟩ := Work.paintAll_apply (ε := ε) second board hsize
    have hsame := hperm.foldl_eq'
      (fun one _ other _ pixels => Drawing.printed_comm pixels one other) board.pixels
    exact ⟨_, hlast, hfirst, hsame ▸ hsecond⟩
  · intro before between behind twice
    obtain ⟨hlast, hlong⟩ := Work.paintAll_apply (ε := ε)
      (before ++ twice :: (between ++ twice :: behind)) board hsize
    obtain ⟨-, hshort⟩ := Work.paintAll_apply (ε := ε) (before ++ (between ++ behind)) board hsize
    have hsame := foldl_of_twice Drawing.printed_comm Drawing.printed_printed before between behind twice
      board.pixels
    exact ⟨_, hlast, hlong, hsame ▸ hshort⟩
  · exact fun first second hperm =>
      hperm.foldl_eq' (fun one _ other _ screen => Drawing.onto_comm screen one other) screen
  · exact fun before between behind twice =>
      foldl_of_twice Drawing.onto_comm Drawing.onto_onto before between behind twice screen
  · intro machine x y rows updated again hx hy hread hdone hsame hagain sprite covers lands last
    obtain ⟨-, hrestored, hregisters⟩ := cycle_of_draw (hsame ▸ hread) hagain
    have hdrawn := drawn_again hx hy hread hdone
    have hhit : (machine.cycle.machine.drawn x y rows).2 = true ↔ lands := by
      rw [hdrawn]
      exact Drawing.hit_again_iff machine.screen (machine.drawing x y rows)
        (machine.length_sprite_le rows)
    have hflag : last.registers.get Registers.flag =
        flagOf (machine.cycle.machine.drawn x y rows).2 := by
      rw [hregisters, Registers.get_set_self]
    refine ⟨?_, fun h => ?_, fun h => ?_⟩
    · rw [hrestored, hdrawn]
      exact Drawing.onto_onto machine.screen (machine.drawing x y rows)
    · rw [hflag, hhit.mpr h]
      rfl
    · rw [hflag, Bool.eq_false_iff.mpr fun hlit => h (hhit.mp hlit)]
      rfl

/-- A sprite taller than a wrapping screen, around and before another one; and a glyph that is drawn
twice across the corner of the screen, over a glyph that has been drawn there before. -/
theorem drawings_commute_and_cancel_corner :
    let program : Program :=
      ⟨[0x61, 0x3E, 0x62, 0x1F, 0xD1, 0x25, 0x61, 0x3D, 0xD1, 0x25, 0xD1, 0x25]⟩
    let settings : Settings := { dialect := { edge := .wrap } }
    let start := loaded program settings (.ofSeed 0)
    let machine := start.after [.cycle, .cycle, .cycle, .cycle]
    let last := machine.cycle.machine.cycle.machine
    let tall : Drawing := ⟨.wrap, 62, 1000, List.replicate 40 0xAA⟩
    let small : Drawing := ⟨.clip, 60, 4, [0xFF, 0x81, 0xFF]⟩
    (boot program settings (.ofSeed 0)).result = .ok start ∧
      (∃ pixels, pixels.size = 2048 ∧
        (Work.paintAll [tall, small] : Work Fault Unit).on machine.board =
          (.done (), { machine.board with pixels }) ∧
        (Work.paintAll [small, tall] : Work Fault Unit).on machine.board =
          (.done (), { machine.board with pixels })) ∧
      (∃ pixels, pixels.size = 2048 ∧
        (Work.paintAll ([small] ++ tall :: ([small] ++ tall :: [tall])) : Work Fault Unit).on
            machine.board =
          (.done (), { machine.board with pixels }) ∧
        (Work.paintAll ([small] ++ ([small] ++ [tall])) : Work Fault Unit).on machine.board =
          (.done (), { machine.board with pixels })) ∧
      [tall, small].foldl Drawing.onto machine.screen =
        [small, tall].foldl Drawing.onto machine.screen ∧
      (Instruction.decode machine.word = some (.draw (.ofNat 1) (.ofNat 2) (.ofNat 5)) ∧
        machine.cycle.result = .ok true ∧ machine.cycle.machine.word = machine.word ∧
        machine.cycle.machine.cycle.result = .ok true) ∧
      (machine.screen.pixel 62 31 = true ∧ machine.screen.pixel 61 31 = false) ∧
      last.screen = machine.screen ∧ last.registers.get Registers.flag = 1 := by
  intro program settings start machine last tall small
  have hboot : (boot program settings (.ofSeed 0)).result = .ok start :=
    boot_eq_ok_iff.mpr ⟨by decide, by decide, by decide, rfl⟩
  obtain ⟨hread, hreply, hsame, hagain, hx, hy, hindex, hedge, hon, hoff, hsprite⟩ :
      Instruction.decode machine.word = some (.draw (.ofNat 1) (.ofNat 2) (.ofNat 5)) ∧
        (Operation.cycle.apply machine).reply = .updated true ∧
        machine.cycle.machine.word = machine.word ∧
        (Operation.cycle.apply machine.cycle.machine).reply = .updated true ∧
        machine.registers.get (.ofNat 1) = 61 ∧ machine.registers.get (.ofNat 2) = 31 ∧
        machine.index = 0 ∧ machine.dialect.edge = .wrap ∧
        machine.screen.pixel 62 31 = true ∧ machine.screen.pixel 61 31 = false ∧
        machine.memory.slice 0 5 = [0xF0, 0x90, 0x90, 0x90, 0xF0] := by
    decide +kernel
  have hdone : machine.cycle.result = .ok true := reply_eq_updated_iff.mp hreply
  have hdone' : machine.cycle.machine.cycle.result = .ok true := reply_eq_updated_iff.mp hagain
  have hsize : machine.board.pixels.size = 2048 := length_words machine.screen
  have hperm : [tall, small].Perm [small, tall] := .swap ..
  have hpainted := drawings_commute_and_cancel.1 (ε := Fault) machine.board hsize
  obtain ⟨hscreen, hhit, -⟩ := drawings_commute_and_cancel.2.2 machine (.ofNat 1) (.ofNat 2)
    (.ofNat 5) true true (by decide) (by decide) hread hdone hsame hdone'
  rw [hx, hy, hindex, hedge] at hhit
  -- the leftmost bit of the upper edge of the second glyph lies beside the first
  have hcovers : Covers .wrap (61 % 64) (31 % 32) (machine.memory.slice 0 5) 61 31 := by
    rw [hsprite]
    exact ⟨0, 0xF0, 0, rfl, by decide, by decide, rfl, rfl⟩
  exact ⟨hboot, hpainted.1 _ _ hperm, hpainted.2 [small] [small] [tall] tall,
    (drawings_commute_and_cancel.2.1 machine.screen).1 _ _ hperm, ⟨hread, hdone, hsame, hdone'⟩,
    ⟨hon, hoff⟩, hscreen, hhit ⟨61, by decide, 31, by decide, hcovers, hoff⟩⟩

end Machine
end Chip8
