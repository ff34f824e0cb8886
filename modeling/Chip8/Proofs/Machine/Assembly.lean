import Chip8.Proofs.Instruction.Template
import Chip8.Proofs.Machine.Cycle
import Chip8.Proofs.Machine.Start
import Chip8.Proofs.Screen.Words

/-!
# Assembled programs

A program that is assembled from instructions holds their words one after the other.  Once it is in
memory, every word is fetched and read as the instruction that it was made from.

* `getElem?_ofWords` — the two bytes of a word lie at twice its place.
* `word_of_bytes` — the word that is fetched is the one whose bytes lie there.
* `Fresh.readWord_ofWords` — the words of a program are found in the memory of a fresh machine.
* `assembled_programs_read_back` — so its instructions are; and a word is read exactly if it fits a
  template, as an instruction whose template it fills in.
-/

namespace Chip8

/-- The bytes of a word lie at twice its place, the more significant first. -/
theorem Program.getElem?_ofWords {words : List UInt16} {place : Nat} {word : UInt16}
    (hword : words[place]? = some word) :
    (ofWords words).bytes[2 * place]? = some (word >>> 8).toUInt8 ∧
      (ofWords words).bytes[2 * place + 1]? = some word.toUInt8 := by
  have hblock : ∀ column < 2, (words.flatMap wordBytes)[place * 2 + column]? =
      (wordBytes word)[column]? := by
    intro column hcolumn
    rw [Screen.getElem?_flatMap_blocks wordBytes words (fun _ => rfl) hcolumn, hword]
    rfl
  rw [Nat.mul_comm]
  exact ⟨hblock 0 (by decide), hblock 1 (by decide)⟩

/-- A word is made up of its two bytes. -/
theorem Memory.word_of_bytes {memory : Memory} {address : Nat} {word : UInt16}
    (hhigh : memory.byte address = (word >>> 8).toUInt8)
    (hlow : memory.byte (address + 1) = word.toUInt8) : memory.word address = word := by
  have hsize := word.toNat_lt
  have hshift : (word >>> 8).toUInt8.toNat = word.toNat / 256 := by
    rw [UInt16.toNat_toUInt8, UInt16.toNat_shiftRight, show (8 : UInt16).toNat % 16 = 8 from rfl,
      Nat.shiftRight_eq_div_pow]
    omega
  refine UInt16.toNat_inj.mp ?_
  rw [toNat_word, hhigh, hlow, hshift, UInt16.toNat_toUInt8]
  omega

namespace Machine

/-- The words of a program are found in the memory of a machine that has just started. -/
theorem Fresh.readWord_ofWords {words : List UInt16} {settings : Settings} {machine : Machine}
    (hfresh : machine.Fresh (.ofWords words) settings)
    (hfits : settings.programStart.toNat + (Program.ofWords words).bytes.length ≤ memorySize)
    {place : Nat} {word : UInt16} (hword : words[place]? = some word) :
    machine.memory.readWord (settings.programStart.toNat + 2 * place) = .ok word := by
  obtain ⟨hhigh, hlow⟩ := Program.getElem?_ofWords hword
  have hinside : 2 * place + 1 < (Program.ofWords words).bytes.length :=
    (List.getElem?_eq_some_iff.mp hlow).1
  rw [hfresh.program_at _ (Nat.lt_of_succ_lt hinside)] at hhigh
  rw [hfresh.program_at _ hinside] at hlow
  rw [Memory.readWord_eq, if_pos (by omega)]
  exact congrArg Except.ok (Memory.word_of_bytes (Option.some.inj hhigh) (Option.some.inj hlow))

/-- A word that cannot be read makes the cycle fail that fetches it. -/
theorem cycle_of_unreadable {machine : Machine} (hlive : machine.status ≠ .crashed)
    (hfetch : machine.Fetches) (hread : Instruction.decode machine.word = none) :
    ∃ crash, machine.cycle.result = .error crash ∧
      crash.fault = .unknownInstruction machine.word ∧ crash.word = some machine.word := by
  have hfault : machine.fault? = some (.unknownInstruction machine.word) := by
    unfold fault?
    rw [if_pos hfetch, hread]
  obtain ⟨records, hcycle⟩ := cycle_of_fault hlive hfault
  rw [hcycle]
  exact ⟨_, rfl, rfl, if_pos hfetch⟩

/-- A program assembled from instructions starts wherever it may be placed and fits, and each of its
instructions is fetched and read back from its place.  A word is read exactly if it fits the
template of some instruction, and then as an instruction whose template it fills in; all words but
`0x00E0` and `0x00EE`, which are no machine calls, have one reading.  Any other word makes the cycle
fail that fetches it. -/
theorem assembled_programs_read_back :
    (∀ (instructions : List Instruction) (settings : Settings) (hostKey : Keystream.Key),
      (∀ instruction ∈ instructions, instruction.IsOwn) →
      let program := Program.ofWords (instructions.map Instruction.encode)
      let start := settings.programStart.toNat
      0x200 ≤ start → settings.fontStart.toNat + 80 ≤ start →
      start + 2 * instructions.length ≤ 0x1000 →
      ∃ machine, (boot program settings hostKey).result = .ok machine ∧
        ∀ (place : Nat) (instruction : Instruction), instructions[place]? = some instruction →
          ∃ word, machine.memory.readWord (start + 2 * place) = .ok word ∧
            Instruction.decode word = some instruction) ∧
    ∀ word : UInt16,
      ((∃ instruction, Instruction.decode word = some instruction) ↔
        ∃ instruction : Instruction, instruction.Fits word) ∧
      (∀ instruction, Instruction.decode word = some instruction →
        instruction.Fits word ∧ instruction.encode = word) ∧
      (∀ instruction : Instruction, instruction.encode = word →
        Instruction.decode word = some instruction ∨
          ∃ target, instruction = .machineCall target ∧
            (word = 0x00E0 ∧ Instruction.decode word = some .clearScreen ∨
              word = 0x00EE ∧ Instruction.decode word = some .ret)) ∧
      ((∀ instruction : Instruction, ¬ instruction.Fits word) →
        ∀ machine : Machine, machine.status ≠ .crashed → machine.Fetches → machine.word = word →
          ∃ crash, machine.cycle.result = .error crash ∧
            crash.fault = .unknownInstruction word ∧ crash.word = some word) := by
  constructor
  · intro instructions settings hostKey hown program start hfree hfont hfits
    have hlength : program.bytes.length = 2 * instructions.length := by
      have hwords := Program.length_ofWords (instructions.map Instruction.encode)
      rwa [List.length_map] at hwords
    have hroom : start + program.bytes.length ≤ memorySize := by
      rw [hlength]
      exact hfits
    have hfresh := fresh_loaded program settings hostKey hfont hroom
    refine ⟨_, boot_eq_ok_iff.mpr ⟨hfont, hfree, hroom, rfl⟩, fun place instruction hplace => ?_⟩
    have hword : (instructions.map Instruction.encode)[place]? = some instruction.encode := by
      rw [List.getElem?_map, hplace]
      rfl
    exact ⟨_, hfresh.readWord_ofWords hroom hword,
      Instruction.decode_of_number (hown _ (List.mem_of_getElem? hplace))
        instruction.toNat_encode⟩
  · intro word
    refine ⟨Instruction.exists_decode_iff, fun instruction hread => ?_, fun instruction hword => ?_,
      fun hfree machine hlive hfetch hword => ?_⟩
    · have hnumber := (Instruction.number_of_decode hread).1
      exact ⟨Instruction.fits_of_number hnumber,
        UInt16.toNat_inj.mp (instruction.toNat_encode.trans hnumber.symm)⟩
    · subst hword
      obtain hread | ⟨target, rfl, ⟨hclear, hread⟩ | ⟨hret, hread⟩⟩ := instruction.decode_encode
      · exact .inl hread
      · exact .inr ⟨target, rfl, .inl ⟨hclear, hclear ▸ hread⟩⟩
      · exact .inr ⟨target, rfl, .inr ⟨hret, hret ▸ hread⟩⟩
    · subst hword
      refine cycle_of_unreadable hlive hfetch (Option.eq_none_iff_forall_ne_some.mpr ?_)
      intro instruction hread
      obtain ⟨other, hfits⟩ := Instruction.exists_decode_iff.mp ⟨instruction, hread⟩
      exact hfree other hfits

/-- Three instructions right behind the font, at an odd place near the end of memory; the word
`0x00EE`, which a machine call writes too; and a word of no instruction. -/
theorem assembled_programs_read_back_odd_place :
    let instructions : List Instruction :=
      [.machineCall (.ofWord 0x0E1), .draw (.ofNat 0xF) (.ofNat 0xF) (.ofNat 0xF),
        .waitKey (.ofNat 0xA)]
    let program := Program.ofWords (instructions.map Instruction.encode)
    let settings : Settings := { programStart := 0xFF9, fontStart := 0xFA9 }
    let start := loaded ⟨[0xF0, 0xFF]⟩ {} (.ofSeed 0)
    (∃ machine, (boot program settings (.ofSeed 0)).result = .ok machine ∧
      (∃ word, machine.memory.readWord 0xFF9 = .ok word ∧
        Instruction.decode word = some (.machineCall (.ofWord 0x0E1))) ∧
      ∃ word, machine.memory.readWord 0xFFD = .ok word ∧
        Instruction.decode word = some (.waitKey (.ofNat 0xA))) ∧
      ((Instruction.machineCall (.ofWord 0x0EE)).encode = 0x00EE ∧
        Instruction.decode 0x00EE = some .ret ∧ Instruction.Fits .ret 0x00EE) ∧
      (∀ instruction : Instruction, ¬ instruction.Fits 0xF0FF) ∧
      start.status ≠ .crashed ∧ start.Fetches ∧ start.word = 0xF0FF ∧
      ∃ crash, start.cycle.result = .error crash ∧ crash.fault = .unknownInstruction 0xF0FF := by
  intro instructions program settings start
  obtain ⟨hprograms, hwords⟩ := assembled_programs_read_back
  have hown : ∀ instruction ∈ instructions, instruction.IsOwn := by
    simp only [instructions, List.forall_mem_cons]
    exact ⟨⟨by decide, by decide⟩, trivial, trivial, nofun⟩
  obtain ⟨machine, hboot, hread⟩ :=
    hprograms instructions settings (.ofSeed 0) hown (by decide) (by decide) (by decide)
  have hret : Instruction.decode 0x00EE = some .ret := rfl
  have hfree : ∀ instruction : Instruction, ¬ instruction.Fits 0xF0FF := by
    intro instruction hfits
    obtain ⟨reading, hreading⟩ := (hwords 0xF0FF).1.mpr ⟨instruction, hfits⟩
    cases hreading
  obtain ⟨hlive, hfetch, hword⟩ : start.status ≠ .crashed ∧ start.Fetches ∧ start.word = 0xF0FF := by
    decide +kernel
  obtain ⟨crash, hcrash, hfault, -⟩ := (hwords 0xF0FF).2.2.2 hfree start hlive hfetch hword
  exact ⟨⟨machine, hboot, hread 0 _ rfl, hread 2 _ rfl⟩,
    ⟨rfl, hret, ((hwords 0x00EE).2.1 _ hret).1⟩, hfree, hlive, hfetch, hword, crash, hcrash, hfault⟩

end Machine
end Chip8
