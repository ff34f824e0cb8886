import Chip8.Machine.Boot
import Chip8.Proofs.Machine.Execute

/-!
# When a machine starts

* `placeFont_eq_ok_iff`, `placeProgram_eq_ok_iff` — when either step is accepted, and its result.
* `Machine.loaded` — the machine with font and program in place.
* `boot_eq_ok_iff` — a start succeeds exactly if the font ends at or before the program and the
  program lies between the reserved region and the end of memory.
-/

namespace Chip8
namespace Machine

theorem placeFont_eq_ok_iff {machine next : Machine} :
    machine.placeFont = .ok next ↔
      machine.fontStart.toNat + Font.bytes.length ≤ machine.programStart.toNat ∧
        machine.fontStart.toNat + Font.bytes.length ≤ memorySize ∧
        { machine with memory := machine.memory.put machine.fontStart.toNat Font.bytes } =
          next := by
  simp only [placeFont, Memory.write_eq]
  by_cases hoverlap : machine.programStart.toNat < machine.fontStart.toNat + Font.bytes.length
  · rw [if_pos hoverlap]
    exact ⟨nofun, fun h => absurd h.1 (Nat.not_le_of_lt hoverlap)⟩
  · rw [if_neg hoverlap]
    have hroom := Nat.le_of_not_lt hoverlap
    split
    · next hinside =>
      exact ⟨fun h => ⟨hroom, hinside, Except.ok.inj h⟩, fun h => congrArg Except.ok h.2.2⟩
    · next hinside => exact ⟨nofun, fun h => absurd h.2.1 hinside⟩

theorem placeProgram_eq_ok_iff {machine next : Machine} {program : Program} :
    machine.placeProgram program = .ok next ↔
      reservedEnd ≤ machine.programStart.toNat ∧
        machine.programStart.toNat + program.size ≤ memorySize ∧
        { machine with memory := machine.memory.put machine.programStart.toNat program.bytes } =
          next := by
  simp only [placeProgram, Memory.write_eq]
  by_cases hreserved : machine.programStart.toNat < reservedEnd
  · rw [if_pos hreserved]
    exact ⟨nofun, fun h => absurd h.1 (Nat.not_le_of_lt hreserved)⟩
  · rw [if_neg hreserved]
    have hfree := Nat.le_of_not_lt hreserved
    by_cases hlarge : memorySize - machine.programStart.toNat < program.size
    · simp only [if_pos hlarge]
      refine ⟨nofun, fun h => ?_⟩
      omega
    · simp only [if_neg hlarge]
      split
      · next hinside =>
        exact ⟨fun h => ⟨hfree, hinside, Except.ok.inj h⟩, fun h => congrArg Except.ok h.2.2⟩
      · next hinside => exact ⟨nofun, fun h => absurd h.2.1 hinside⟩

/-- The machine with font and program in place, the program last. -/
def loaded (program : Program) (settings : Settings) (hostKey : Keystream.Key) : Machine :=
  { powerOn settings hostKey with
    memory := (Memory.zero.put settings.fontStart.toNat Font.bytes).put
      settings.programStart.toNat program.bytes }

/-- A start succeeds exactly if the font ends at or before the program and the program lies between
the reserved region and the end of memory. -/
theorem boot_eq_ok_iff {program : Program} {settings : Settings} {hostKey : Keystream.Key}
    {start : Machine} :
    (boot program settings hostKey).result = .ok start ↔
      settings.fontStart.toNat + Font.bytes.length ≤ settings.programStart.toNat ∧
        reservedEnd ≤ settings.programStart.toNat ∧
        settings.programStart.toNat + program.size ≤ memorySize ∧
        loaded program settings hostKey = start := by
  constructor
  · intro hstart
    simp only [boot] at hstart
    split at hstart
    · cases hstart
    · next withFont hfont =>
      obtain ⟨hfits, -, rfl⟩ := placeFont_eq_ok_iff.mp hfont
      split at hstart
      · cases hstart
      · next ready hprogram =>
        obtain ⟨hfree, hinside, rfl⟩ := placeProgram_eq_ok_iff.mp hprogram
        exact ⟨hfits, hfree, hinside, Except.ok.inj hstart⟩
  · rintro ⟨hfits, hfree, hinside, rfl⟩
    -- the font fits into memory because it ends before the program
    have hfont : (powerOn settings hostKey).placeFont = .ok _ :=
      placeFont_eq_ok_iff.mpr ⟨hfits, Nat.le_trans hfits (by omega), rfl⟩
    simp only [boot, hfont]
    rw [placeProgram_eq_ok_iff.mpr ⟨hfree, hinside, rfl⟩]
    rfl

end Machine
end Chip8
