import Chip8.Proofs.Machine.Boot

/-!
# What comes of a start

* `startFault` — the fault of a start, which is the first of five causes that applies.
* `Machine.FailedStart` — a crash at the start, and the bytes that had been placed by then.
* `Machine.Fresh` — a machine that has just started.
* `boot_decides` — a start meets exactly its `startFault`; without one it gives a fresh machine.
-/

namespace Chip8

/-- The fault of a start with a program of some size, if it has one: the first cause applies. -/
def startFault (size fontStart programStart : Nat) : Option Fault :=
  if programStart < fontStart + 80 then some (.fontOutOfBounds (fontStart + 80))
  else if 0x1000 < fontStart + 80 then some (.addressOutOfBounds (max fontStart 0x1000))
  else if programStart < 0x200 then some (.programInReservedRegion programStart)
  else if 0x1000 - programStart < size then some (.programTooLarge size (0x1000 - programStart))
  else if 0x1000 < programStart then some (.addressOutOfBounds programStart)
  else none

theorem startFault_eq_none_iff {size fontStart programStart : Nat} :
    startFault size fontStart programStart = none ↔
      0x200 ≤ programStart ∧ fontStart + 80 ≤ programStart ∧ programStart + size ≤ 0x1000 := by
  unfold startFault
  repeat' split
  all_goals simp
  all_goals omega

/-- The bytes that are placed before a start is refused: none, or the font. -/
def placedAtFault (fontStart programStart : Nat) : List UInt8 :=
  if programStart < fontStart + 80 ∨ 0x1000 < fontStart + 80 then [] else Font.bytes

namespace Machine

/-- A crash at the start: nothing has been carried out, and memory holds nothing but some bytes at
the place of the font. -/
structure FailedStart (settings : Settings) (fault : Fault) (placed : List UInt8)
    (crash : Crash) : Prop where
  fault_eq : crash.fault = fault
  address_eq : crash.address = settings.programStart
  word_eq : crash.word = none
  status_eq : crash.dump.status = .crashed
  cycles_eq : crash.dump.cycles = 0
  placed_at : ∀ offset < placed.length,
    placed[offset]? = some (crash.dump.memory.byte (settings.fontStart.toNat + offset))
  zero_elsewhere : ∀ address, ¬ (settings.fontStart.toNat ≤ address ∧
    address < settings.fontStart.toNat + placed.length) → crash.dump.memory.byte address = 0

/-- A machine that has just started: font and program are in memory, and all else is zero. -/
structure Fresh (program : Program) (settings : Settings) (machine : Machine) : Prop where
  status_eq : machine.status = .programLoaded
  pc_eq : machine.pc = settings.programStart
  index_eq : machine.index = 0
  registers_eq : ∀ x, machine.registers.get x = 0
  delay_eq : machine.timers.delay = 0
  sound_eq : machine.timers.sound = 0
  pointer_eq : machine.stack.pointer = 0
  entries_eq : ∀ entry ∈ machine.stack.entries, entry = 0
  cycles_eq : machine.cycles = 0
  released : ∀ key, machine.keypad.isPressed key = false
  dark : ∀ x y, machine.screen.pixel x y = false
  font_at : ∀ offset < 80,
    Font.bytes[offset]? = some (machine.memory.byte (settings.fontStart.toNat + offset))
  program_at : ∀ offset < program.bytes.length,
    program.bytes[offset]? = some (machine.memory.byte (settings.programStart.toNat + offset))
  font_before_program : settings.fontStart.toNat + 80 ≤ settings.programStart.toNat
  zero_elsewhere : ∀ address,
    ¬ (settings.fontStart.toNat ≤ address ∧ address < settings.fontStart.toNat + 80) →
    ¬ (settings.programStart.toNat ≤ address ∧
      address < settings.programStart.toNat + program.bytes.length) →
    machine.memory.byte address = 0

/-! ## Refused starts -/

section Start

variable {program : Program} {settings : Settings} {hostKey : Keystream.Key} {fault : Fault}

theorem placeFont_eq (machine : Machine) :
    machine.placeFont =
      if machine.programStart.toNat < machine.fontStart.toNat + Font.bytes.length then
        .error (.fontOutOfBounds (machine.fontStart.toNat + Font.bytes.length))
      else if machine.fontStart.toNat + Font.bytes.length ≤ memorySize then
        .ok { machine with memory := machine.memory.put machine.fontStart.toNat Font.bytes }
      else .error (.addressOutOfBounds (max machine.fontStart.toNat memorySize)) := by
  simp only [placeFont, Memory.write_eq]
  split
  · rfl
  · split <;> rfl

theorem placeProgram_eq (machine : Machine) (program : Program) :
    machine.placeProgram program =
      if machine.programStart.toNat < reservedEnd then
        .error (.programInReservedRegion machine.programStart.toNat)
      else if memorySize - machine.programStart.toNat < program.size then
        .error (.programTooLarge program.size (memorySize - machine.programStart.toNat))
      else if machine.programStart.toNat + program.bytes.length ≤ memorySize then
        .ok { machine with memory := machine.memory.put machine.programStart.toNat program.bytes }
      else .error (.addressOutOfBounds (max machine.programStart.toNat memorySize)) := by
  simp only [placeProgram, Memory.write_eq]
  split
  · rfl
  · split
    · rfl
    · split <;> rfl

/-- The machine with the font in place. -/
def withFont (settings : Settings) (hostKey : Keystream.Key) : Machine :=
  { powerOn settings hostKey with
    memory := Memory.zero.put settings.fontStart.toNat Font.bytes }

theorem placeFont_powerOn (settings : Settings) (hostKey : Keystream.Key) :
    (powerOn settings hostKey).placeFont =
      if settings.programStart.toNat < settings.fontStart.toNat + 80 then
        .error (.fontOutOfBounds (settings.fontStart.toNat + 80))
      else if settings.fontStart.toNat + 80 ≤ 0x1000 then .ok (withFont settings hostKey)
      else .error (.addressOutOfBounds (max settings.fontStart.toNat 0x1000)) :=
  placeFont_eq _

theorem placeProgram_withFont (program : Program) (settings : Settings) (hostKey : Keystream.Key) :
    (withFont settings hostKey).placeProgram program =
      if settings.programStart.toNat < 0x200 then
        .error (.programInReservedRegion settings.programStart.toNat)
      else if 0x1000 - settings.programStart.toNat < program.bytes.length then
        .error (.programTooLarge program.bytes.length (0x1000 - settings.programStart.toNat))
      else if settings.programStart.toNat + program.bytes.length ≤ 0x1000 then
        .ok (loaded program settings hostKey)
      else .error (.addressOutOfBounds (max settings.programStart.toNat 0x1000)) :=
  placeProgram_eq _ program

/-- When the font is refused, nothing has been placed. -/
theorem boot_of_font_refused (hfont : (powerOn settings hostKey).placeFont = .error fault) :
    ∃ crash, (boot program settings hostKey).result = .error crash ∧
      FailedStart settings fault [] crash := by
  refine ⟨(powerOn settings hostKey).crash none fault, ?_, ?_⟩
  · simp only [boot, hfont]
    rfl
  · exact {
      fault_eq := rfl
      address_eq := rfl
      word_eq := rfl
      status_eq := rfl
      cycles_eq := rfl
      placed_at := fun _ hoffset => absurd hoffset (Nat.not_lt_zero _)
      zero_elsewhere := fun address _ => Memory.byte_zero address }

/-- When the program is refused, the font has been placed. -/
theorem boot_of_program_refused
    (hfont : (powerOn settings hostKey).placeFont = .ok (withFont settings hostKey))
    (hfits : settings.fontStart.toNat + 80 ≤ memorySize)
    (hprogram : (withFont settings hostKey).placeProgram program = .error fault) :
    ∃ crash, (boot program settings hostKey).result = .error crash ∧
      FailedStart settings fault Font.bytes crash := by
  refine ⟨(withFont settings hostKey).crash none fault, ?_, ?_⟩
  · simp only [boot, hfont, hprogram]
    rfl
  · exact {
      fault_eq := rfl
      address_eq := rfl
      word_eq := rfl
      status_eq := rfl
      cycles_eq := rfl
      placed_at := fun offset hoffset => Memory.byte_put_inside hfits .zero hoffset
      zero_elsewhere := fun address houtside =>
        (Memory.byte_put_outside hfits houtside).trans (Memory.byte_zero address) }

/-- A start with a fault meets it, with nothing but the font in place. -/
theorem boot_of_startFault (hostKey : Keystream.Key)
    (hfault : startFault program.bytes.length settings.fontStart.toNat
      settings.programStart.toNat = some fault) :
    ∃ crash, (boot program settings hostKey).result = .error crash ∧
      FailedStart settings fault
        (placedAtFault settings.fontStart.toNat settings.programStart.toNat) crash := by
  have hplaceFont := placeFont_powerOn settings hostKey
  have hplaceProgram := placeProgram_withFont program settings hostKey
  rw [startFault] at hfault
  rw [placedAtFault]
  by_cases hoverlap : settings.programStart.toNat < settings.fontStart.toNat + 80
  · rw [if_pos hoverlap] at hfault hplaceFont
    rw [if_pos (.inl hoverlap)]
    cases hfault
    exact boot_of_font_refused hplaceFont
  rw [if_neg hoverlap] at hfault hplaceFont
  by_cases hbeyond : 0x1000 < settings.fontStart.toNat + 80
  · rw [if_pos hbeyond] at hfault
    rw [if_neg (Nat.not_le_of_lt hbeyond)] at hplaceFont
    rw [if_pos (.inr hbeyond)]
    cases hfault
    exact boot_of_font_refused hplaceFont
  have hfits : settings.fontStart.toNat + 80 ≤ 0x1000 := Nat.le_of_not_lt hbeyond
  rw [if_neg hbeyond] at hfault
  rw [if_pos hfits] at hplaceFont
  rw [if_neg (not_or.mpr ⟨hoverlap, hbeyond⟩)]
  refine boot_of_program_refused hplaceFont hfits (hplaceProgram.trans ?_)
  by_cases hreserved : settings.programStart.toNat < 0x200
  · rw [if_pos hreserved] at hfault ⊢
    cases hfault
    rfl
  rw [if_neg hreserved] at hfault ⊢
  by_cases hlarge : 0x1000 - settings.programStart.toNat < program.bytes.length
  · rw [if_pos hlarge] at hfault ⊢
    cases hfault
    rfl
  rw [if_neg hlarge] at hfault ⊢
  -- what is left is an empty program beyond the end of memory
  by_cases hend : 0x1000 < settings.programStart.toNat
  · rw [if_pos hend] at hfault
    rw [if_neg (by omega), Nat.max_eq_left (Nat.le_of_lt hend)]
    cases hfault
    rfl
  · rw [if_neg hend] at hfault
    cases hfault

/-! ## Starts that succeed -/

theorem fresh_loaded (program : Program) (settings : Settings) (hostKey : Keystream.Key)
    (hfont : settings.fontStart.toNat + 80 ≤ settings.programStart.toNat)
    (hprogram : settings.programStart.toNat + program.bytes.length ≤ memorySize) :
    (loaded program settings hostKey).Fresh program settings where
  status_eq := rfl
  pc_eq := rfl
  index_eq := rfl
  registers_eq := Registers.get_zero
  delay_eq := rfl
  sound_eq := rfl
  pointer_eq := rfl
  entries_eq entry hentry := (Vector.mem_replicate.mp hentry).2
  cycles_eq := rfl
  released := Keypad.isPressed_released
  dark := Screen.pixel_blank
  font_at offset hoffset := by
    -- the program lies behind the font, so placing it leaves the font alone
    have hfits : settings.fontStart.toNat + Font.bytes.length ≤ memorySize :=
      Nat.le_trans hfont (Nat.le_trans (Nat.le_add_right _ _) hprogram)
    rw [Memory.byte_put_inside hfits .zero hoffset]
    exact congrArg some (Memory.byte_put_outside hprogram (by omega)).symm
  program_at offset hoffset := Memory.byte_put_inside hprogram _ hoffset
  font_before_program := hfont
  zero_elsewhere address hoff hbeyond := by
    have hfits : settings.fontStart.toNat + Font.bytes.length ≤ memorySize :=
      Nat.le_trans hfont (Nat.le_trans (Nat.le_add_right _ _) hprogram)
    exact (Memory.byte_put_outside hprogram hbeyond).trans
      ((Memory.byte_put_outside hfits hoff).trans (Memory.byte_zero address))

/-- A start meets exactly its fault, with an empty memory or with nothing but the font in place; a
start without a fault gives a fresh machine.  So it succeeds exactly if the font ends at or before
the program, and the program lies between the reserved region and the end of memory. -/
theorem boot_decides (program : Program) (settings : Settings) (hostKey : Keystream.Key) :
    let size := program.bytes.length
    let fontStart := settings.fontStart.toNat
    let programStart := settings.programStart.toNat
    let result := (boot program settings hostKey).result
    (∀ fault, startFault size fontStart programStart = some fault →
      ∃ crash, result = .error crash ∧
        FailedStart settings fault (placedAtFault fontStart programStart) crash) ∧
    (startFault size fontStart programStart = none →
      ∃ machine, result = .ok machine ∧ machine.Fresh program settings) ∧
    ((∃ machine, result = .ok machine) ↔
      0x200 ≤ programStart ∧ fontStart + 80 ≤ programStart ∧ programStart + size ≤ 0x1000) := by
  intro size fontStart programStart result
  have haccepted : startFault size fontStart programStart = none →
      result = .ok (loaded program settings hostKey) ∧
        (loaded program settings hostKey).Fresh program settings := by
    intro hnone
    obtain ⟨hfree, hfont, hprogram⟩ := startFault_eq_none_iff.mp hnone
    exact ⟨boot_eq_ok_iff.mpr ⟨hfont, hfree, hprogram, rfl⟩,
      fresh_loaded program settings hostKey hfont hprogram⟩
  refine ⟨fun _ hfault => boot_of_startFault hostKey hfault, fun hnone => ⟨_, haccepted hnone⟩, ?_⟩
  rw [← startFault_eq_none_iff]
  constructor
  · rintro ⟨machine, hmachine⟩
    cases hfault : startFault size fontStart programStart with
    | none => rfl
    | some fault =>
      obtain ⟨crash, hcrash, -⟩ := boot_of_startFault hostKey hfault
      cases hcrash.symm.trans hmachine
  · exact fun hnone => ⟨_, (haccepted hnone).1⟩

/-- A program that ends with memory, right behind the font; and an empty program beyond memory. -/
theorem boot_decides_ends :
    let fitting : Settings := { programStart := 0xFFD, fontStart := 0xFAD }
    let beyond : Settings := { programStart := 0x1001, fontStart := 0x100 }
    (startFault 3 0xFAD 0xFFD = none ∧
      startFault 0 0x100 0x1001 = some (.addressOutOfBounds 0x1001)) ∧
      (∃ machine, (boot ⟨[1, 2, 3]⟩ fitting (.ofSeed 0)).result = .ok machine ∧
        machine.memory.byte 0xFAC = 0 ∧ machine.memory.byte 0xFAD = 0xF0 ∧
        machine.memory.byte 0xFFF = 3) ∧
      ∃ crash, (boot ⟨[]⟩ beyond (.ofSeed 0)).result = .error crash ∧
        crash.fault = .addressOutOfBounds 0x1001 ∧ crash.dump.memory.byte 0x100 = 0xF0 ∧
        crash.dump.memory.byte 0x150 = 0 := by
  intro fitting beyond
  have hnone : startFault 3 0xFAD 0xFFD = none := by decide
  have hfault : startFault 0 0x100 0x1001 = some (.addressOutOfBounds 0x1001) := by decide
  obtain ⟨machine, hmachine, hfresh⟩ := (boot_decides ⟨[1, 2, 3]⟩ fitting (.ofSeed 0)).2.1 hnone
  obtain ⟨crash, hcrash, hfailed⟩ := (boot_decides ⟨[]⟩ beyond (.ofSeed 0)).1 _ hfault
  refine ⟨⟨hnone, hfault⟩, ⟨machine, hmachine, ?_, ?_, ?_⟩, crash, hcrash, hfailed.fault_eq, ?_, ?_⟩
  · exact hfresh.zero_elsewhere 0xFAC (by decide) (by decide)
  · exact (Option.some.inj (hfresh.font_at 0 (by decide))).symm
  · exact (Option.some.inj (hfresh.program_at 2 (by decide))).symm
  · exact (Option.some.inj (hfailed.placed_at 0 (by decide))).symm
  · exact hfailed.zero_elsewhere 0x150 (by decide)

end Start

end Machine
end Chip8
