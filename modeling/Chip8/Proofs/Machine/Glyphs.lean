import Chip8.Proofs.InPlace.Agreement
import Chip8.Proofs.Machine.Calls
import Chip8.Proofs.Machine.Footprint

/-!
# Glyphs of the font

The font stays where the settings put it, at or before the start of the program.  Its bytes stay as
they are unless a program stores over them, and two instructions can.

* `Instruction.stored`, `Machine.Stores` — how many bytes an instruction stores from the index
  register on, and whether the next cycle stores one at an address.
* `Machine.Stored` — an instruction of a history stores a byte at an address.
* `byte_cycle`, `byte_step`, `byte_stage` — a byte at which nothing is stored stays, over one cycle,
  one operation and a history.
* `place_after`, `font_after` — neither the font nor the program is moved, and the font is found in
  its place.
* `slice_eq_glyph` — where the font lies, every digit has its glyph.
* `glyphs_addressable` — the index register comes to point at a glyph, which can be drawn from there
  and is the built-in one unless it has been stored over.
-/

namespace Chip8

/-- The number of bytes that an instruction stores from the index register on. -/
def Instruction.stored : Instruction → Nat
  | .storeDecimal _ => 3
  | .storeBlock x => x.val + 1
  | _ => 0

/-- Where the font lies, every digit has its glyph. -/
theorem Memory.slice_eq_glyph {memory : Memory} {start : Nat}
    (hfont : ∀ offset < Font.bytes.length,
      Font.bytes[offset]? = some (memory.byte (start + offset))) (digit : Digit) :
    memory.slice (start + Font.offset digit) Font.glyphSize = Font.glyph digit := by
  have hroom := Font.offset_add_glyphSize_le digit
  refine List.ext_getElem? fun row => ?_
  by_cases hrow : row < Font.glyphSize
  · have hplace : Font.offset digit + row < Font.bytes.length := by omega
    rw [Font.glyph, List.getElem?_take_of_lt hrow, List.getElem?_drop, hfont _ hplace]
    simp [slice, hrow, Nat.add_assoc]
  · have hbeyond : (Font.glyph digit).length ≤ row :=
      Nat.le_trans (List.length_take_le ..) (Nat.le_of_not_lt hrow)
    rw [List.getElem?_eq_none hbeyond,
      List.getElem?_eq_none (by rw [length_slice]; exact Nat.le_of_not_lt hrow)]

namespace Machine

/-- The next cycle stores a byte at an address. -/
def Stores (machine : Machine) (address : Nat) : Prop :=
  machine.cycle.result.isOk = true ∧ ∃ instruction, machine.due = some instruction ∧
    machine.index.toNat ≤ address ∧ address < machine.index.toNat + instruction.stored

/-- At a place of a history an instruction is carried out that stores a byte at an address. -/
def Stored (start : Machine) (history : List Operation) (place address : Nat) : Prop :=
  history[place]? = some .cycle ∧ (start.stage history place).Stores address

/-! ## What is not stored over -/

/-- A cycle changes no byte but those that it stores. -/
theorem byte_cycle {machine : Machine} {address : Nat} (hfree : ¬ machine.Stores address) :
    machine.cycle.machine.memory.byte address = machine.memory.byte address := by
  obtain ⟨instruction, hdue, heffect, hresult⟩ | ⟨crash, -, hsame | hsame⟩ := cycle_effect machine
  · have hdone : machine.cycle.result.isOk = true := by
      rw [hresult]
      rfl
    have hmemory := heffect.memory
    cases instruction with
    | storeDecimal x =>
      obtain ⟨hundreds, tens, ones, -, -, hwritten⟩ := hmemory
      exact hwritten.outside address fun hinside => hfree ⟨hdone, _, hdue, hinside⟩
    | storeBlock x =>
      obtain ⟨values, hlength, -, hwritten⟩ := hmemory
      refine hwritten.outside address fun hinside => hfree ⟨hdone, _, hdue, ?_⟩
      rwa [hlength] at hinside
    | _ => exact congrArg (Memory.byte · address) hmemory
  · rw [hsame]
    rfl
  · rw [hsame]
    rfl

theorem byte_step {machine : Machine} {operation : Operation} {address : Nat}
    (hframe : operation ≠ .frame) (hfree : operation = .cycle → ¬ machine.Stores address) :
    (operation.apply machine).machine.memory.byte address = machine.memory.byte address := by
  cases operation with
  | cycle => exact byte_cycle (hfree rfl)
  | frame => exact absurd rfl hframe
  | tick => rfl
  | key number down =>
    simp only [Operation.apply, setKey]
    cases machine.keypad.set number down <;> rfl
  | speed hertz => rfl

/-- Over a history that stores nothing at an address, the byte there stays. -/
theorem byte_stage {start : Machine} {history : List Operation} (hframe : .frame ∉ history)
    {length address : Nat} (hlength : length ≤ history.length)
    (hfree : ∀ place < length, ¬ Stored start history place address) :
    (start.stage history length).memory.byte address = start.memory.byte address := by
  induction length with
  | zero => rfl
  | succ length ih =>
    have hother : history[length] ≠ .frame := fun hsame => hframe (hsame ▸ List.getElem_mem hlength)
    have hunstored : history[length] = .cycle →
        ¬ (start.stage history length).Stores address := fun hcycle hstores =>
      hfree length (Nat.lt_succ_self length)
        ⟨List.getElem?_eq_some_iff.mpr ⟨hlength, hcycle⟩, hstores⟩
    rw [stage_succ start hlength, byte_step hother hunstored]
    exact ih (Nat.le_of_lt hlength) fun place hplace => hfree place (Nat.lt_succ_of_lt hplace)

/-- Whatever a host asks, the font and the program keep their places. -/
theorem place_after (machine : Machine) (operations : List Operation) :
    (machine.after operations).fontStart = machine.fontStart ∧
      (machine.after operations).programStart = machine.programStart := by
  have hkept : Kept fun other =>
      other.fontStart = machine.fontStart ∧ other.programStart = machine.programStart := {
    cycle := fun other hother => by
      obtain ⟨instruction, -, heffect, -⟩ | ⟨crash, -, hsame | hsame⟩ := cycle_effect other
      · obtain ⟨-, -, hfont, hprogram, -⟩ := config_of_execute (execute_eq_ok_iff.mpr heffect)
        exact ⟨hfont.trans hother.1, hprogram.trans hother.2⟩
      · rw [hsame]
        exact hother
      · rw [hsame]
        exact hother
    tick := fun _ hother => hother
    key := fun _ _ hother => hother
    speed := fun _ _ hother => hother }
  exact hkept.after ⟨rfl, rfl⟩ operations

/-- Unless a history stores over it, the font is found where the settings put it, for the program
was placed behind it. -/
theorem font_after {program : Program} {settings : Settings} {hostKey : Keystream.Key}
    {start : Machine} (hboot : (boot program settings hostKey).result = .ok start)
    (operations : List Operation)
    (hkept : ∀ place address, settings.fontStart.toNat ≤ address →
      address < settings.fontStart.toNat + 80 →
      ¬ Stored start (start.unroll operations) place address) {offset : Nat}
    (hoffset : offset < Font.bytes.length) :
    Font.bytes[offset]? =
      some ((start.after operations).memory.byte (settings.fontStart.toNat + offset)) := by
  obtain ⟨hfont, -, hprogram, rfl⟩ := boot_eq_ok_iff.mp hboot
  have hunchanged := byte_stage (frame_notMem_unroll _ operations) (Nat.le_refl _)
    fun place _ => hkept place (settings.fontStart.toNat + offset) (Nat.le_add_right _ _)
      (Nat.add_lt_add_left hoffset _)
  rw [stage, List.take_length, after_unroll] at hunchanged
  rw [hunchanged]
  exact (fresh_loaded program settings hostKey hfont hprogram).font_at offset hoffset

/-! ## Pointing at a glyph -/

section Glyph

variable {machine : Machine} {x : Digit}

/-- The instruction that points at a glyph is never refused and stores nothing.  The sum is exact,
and the glyph lies wholly before the program. -/
theorem cycle_of_pointGlyph (hsound : machine.Sound) (hdue : machine.due = some (.pointGlyph x)) :
    machine.cycle.result = .ok false ∧ machine.cycle.machine.memory = machine.memory ∧
      machine.cycle.machine.index.toNat =
        machine.fontStart.toNat + Font.offset (.low (machine.registers.get x)) ∧
      machine.cycle.machine.index.toNat + Font.glyphSize ≤ machine.programStart.toNat := by
  obtain ⟨heffect, hresult⟩ := effect_of_due hdue rfl
  have hindex : machine.cycle.machine.index.toNat =
      machine.fontStart.toNat + Font.offset (.low (machine.registers.get x)) :=
    heffect.index_eq hsound.beginCycle
  refine ⟨hresult, heffect.memory, hindex, ?_⟩
  have hroom := Font.offset_add_glyphSize_le (.low (machine.registers.get x))
  have hfont := hsound.font_le
  rw [hindex]
  omega

/-- A drawing of rows that lie in memory is never refused. -/
theorem cycle_of_draw_inside {y rows : Digit} (hdue : machine.due = some (.draw x y rows))
    (hinside : machine.index.toNat + rows.val ≤ memorySize) : machine.cycle.result = .ok true :=
  (effect_of_due hdue (if_pos hinside)).2

end Glyph

/-- On a machine that some history leads to, the instruction that points at a glyph succeeds, and
makes the index register the exact address of a glyph that lies wholly before the program.  So
drawing no more rows than a glyph has is not refused while the index register stays there.  If no
instruction of the history has stored a byte over the font, the glyph is the built-in one of the
low digit of the register, whatever the program. -/
theorem glyphs_addressable {program : Program} {settings : Settings} {hostKey : Keystream.Key}
    {start : Machine} (hboot : (boot program settings hostKey).result = .ok start)
    (operations : List Operation) {x : Digit}
    (hdue : (start.after operations).due = some (.pointGlyph x)) :
    let machine := start.after operations
    let value := machine.registers.get x
    let next := machine.cycle.machine
    let fontStart := settings.fontStart.toNat
    (machine.cycle.result = .ok false ∧
        (next.cycles < 0x10000000000000000 →
          Work.cycle.on machine.board = (.done false, next.board))) ∧
      (next.index.toNat = fontStart + 5 * (value.toNat % 16) ∧
        next.index.toNat + 5 ≤ settings.programStart.toNat ∧
        settings.programStart.toNat ≤ 0x1000) ∧
      (∀ later : Machine, later.index = next.index → ∀ x y rows : Digit, rows.val ≤ 5 →
        later.due = some (.draw x y rows) → later.cycle.result = .ok true) ∧
      let history := start.unroll operations
      (∀ place address, fontStart ≤ address → address < fontStart + 80 →
          ¬ Stored start history place address) →
        next.memory.read next.index.toNat 5 = .ok (Font.glyph (.low value)) := by
  intro machine value next fontStart
  have hsound : machine.Sound := (sound_of_boot hboot).after operations
  obtain ⟨hfont, hprogram⟩ : machine.fontStart = settings.fontStart ∧
      machine.programStart = settings.programStart := by
    obtain ⟨-, -, -, rfl⟩ := boot_eq_ok_iff.mp hboot
    exact place_after _ operations
  have hend := hsound.program_le
  obtain ⟨hresult, hmemory, hindex, hbefore⟩ := cycle_of_pointGlyph hsound hdue
  rw [hfont] at hindex
  rw [hprogram] at hbefore hend
  have hinside : next.index.toNat + 5 ≤ memorySize := Nat.le_trans hbefore hend
  refine ⟨⟨hresult, Work.cycle_apply_done hsound hresult⟩, ⟨hindex, hbefore, hend⟩,
    fun later hsame x y rows hrows hdraw => ?_, fun hkept => ?_⟩
  · refine cycle_of_draw_inside hdraw ?_
    rw [hsame]
    exact Nat.le_trans (Nat.add_le_add_left hrows _) hinside
  · have hglyph := Memory.slice_eq_glyph (fun _ => font_after hboot operations hkept) (.low value)
    refine Memory.read_eq_ok_iff.mpr ⟨hinside, ?_⟩
    rw [hindex]
    exact hmemory ▸ hglyph

/-- The font lies elsewhere, the register holds more than a digit, and the program has stored three
digits, but not over the font. -/
theorem glyphs_addressable_relocated :
    let program : Program :=
      ⟨[0x60, 0xAC, 0xA1, 0x00, 0xF0, 0x33, 0xF0, 0x29, 0xD0, 0x05]⟩
    let settings : Settings := { fontStart := 0x10 }
    let start := loaded program settings (.ofSeed 0)
    let machine := start.after [.cycle, .cycle, .cycle]
    let next := machine.cycle.machine
    (boot program settings (.ofSeed 0)).result = .ok start ∧
      machine.due = some (.pointGlyph (.ofNat 0)) ∧
      start.Stored (start.unroll [.cycle, .cycle, .cycle]) 2 0x102 ∧
      next.index.toNat = 0x4C ∧
      next.memory.read 0x4C 5 = .ok [0xF0, 0x80, 0x80, 0x80, 0xF0] ∧
      next.cycle.result = .ok true := by
  intro program settings start machine next
  have hboot : (boot program settings (.ofSeed 0)).result = .ok start :=
    boot_eq_ok_iff.mpr ⟨by decide, by decide, by decide, rfl⟩
  let history : List Operation := [.cycle, .cycle, .cycle]
  obtain ⟨hfirst, hsecond, ⟨hthird, hindex⟩, hdue, hdraw, hvalue⟩ :
      (start.stage history 0).due = some (.setByte (.ofNat 0) 0xAC) ∧
        (start.stage history 1).due = some (.setIndex ⟨0x100, by decide⟩) ∧
        ((start.stage history 2).due = some (.storeDecimal (.ofNat 0)) ∧
          (start.stage history 2).index = 0x100) ∧
        machine.due = some (.pointGlyph (.ofNat 0)) ∧
        next.due = some (.draw (.ofNat 0) (.ofNat 0) (.ofNat 5)) ∧
        machine.registers.get (.ofNat 0) = 0xAC := by
    decide +kernel
  have hstored : (start.stage history 2).Stores 0x102 := by
    refine ⟨?_, _, hthird, ?_⟩
    · rw [(effect_of_due hthird (by rw [refusal, accessRefusal, hindex]; rfl)).2]
      rfl
    · rw [hindex]
      decide
  have hkept : ∀ place address, 0x10 ≤ address → address < 0x10 + 80 →
      ¬ start.Stored history place address := by
    rintro place address - hbelow ⟨hcycle, -, instruction, hfound, hfrom, hto⟩
    have hplace : place < 3 := (List.getElem?_eq_some_iff.mp hcycle).1
    obtain rfl | rfl | rfl : place = 0 ∨ place = 1 ∨ place = 2 := by omega
    · obtain rfl := Option.some.inj (hfirst.symm.trans hfound)
      exact absurd hto (Nat.not_lt_of_le hfrom)
    · obtain rfl := Option.some.inj (hsecond.symm.trans hfound)
      exact absurd hto (Nat.not_lt_of_le hfrom)
    · rw [hindex] at hfrom
      exact absurd (Nat.lt_of_le_of_lt hfrom hbelow) (by decide)
  have hmachine : start.after [.cycle, .cycle, .cycle] = machine := rfl
  have hnext : machine.cycle.machine = next := rfl
  obtain ⟨-, ⟨hpoints, -, -⟩, hdrawn, hglyph⟩ :=
    glyphs_addressable hboot [.cycle, .cycle, .cycle] hdue
  have hread := hglyph hkept
  rw [hmachine, hnext, hvalue] at hpoints hread
  rw [hpoints] at hread
  rw [hmachine, hnext] at hdrawn
  exact ⟨hboot, hdue, ⟨rfl, hstored⟩, hpoints, hread, hdrawn next rfl _ _ _ (by decide) hdraw⟩

end Machine
end Chip8
