import Chip8.Proofs.InPlace.Agreement

/-!
# Steps that never slip

* `Board.InRange` — the ranges within which a board stays.
* `inRange_board` — the board of a machine that keeps within its ranges is within them.
* `run_in_range` — whatever a host asks after a start, no step on the board slips, as long as the
  cycles can be counted.
-/

namespace Chip8

/-- The ranges within which a board stays. -/
structure Board.InRange (board : Board) : Prop where
  /-- A skip at the last word of memory leads farthest. -/
  pc_le : board.pc.toNat ≤ 0x1002
  pointer_le : board.stack.pointer ≤ 16
  /-- The raw entries below the pointer lie behind some word of memory. -/
  entries_range : ∀ place < board.stack.pointer, ∃ address,
    board.stack.entries[place]? = some address ∧ 2 ≤ address.toNat ∧ address.toNat ≤ 0x1000
  size_eq : board.pixels.size = 2048
  /-- A pixel is off or on. -/
  pixels_range : ∀ word ∈ board.pixels, word = 0 ∨ word = 0xFFFFFFFF
  font_le : board.fontStart.toNat + 80 ≤ board.programStart.toNat
  program_le : board.programStart.toNat ≤ 0x1000

namespace Machine

theorem inRange_board {machine : Machine} (hsound : machine.Sound) : machine.board.InRange where
  pc_le := hsound.pc_le
  pointer_le := hsound.pointer_le
  entries_range := by
    intro place hplace
    have hinside : place < stackSize := Nat.lt_of_lt_of_le hplace hsound.pointer_le
    have hmember : machine.stack.entries[place] ∈ machine.stack.held := by
      refine List.mem_take_iff_getElem.mpr ⟨place, ?_, ?_⟩
      · rw [Vector.length_toList]
        exact Nat.lt_min.mpr ⟨hplace, hinside⟩
      · exact Vector.getElem_toList ..
    exact ⟨machine.stack.entries[place], Vector.getElem?_eq_getElem hinside,
      hsound.held_range _ hmember⟩
  size_eq := Screen.length_words machine.screen
  pixels_range := by
    intro word hword
    exact Screen.mem_words (List.mem_toArray.mp hword)
  font_le := hsound.font_le
  program_le := hsound.program_le

/-- Whatever a host asks after a start, no step on the board slips and the board stays within its
ranges, as long as the cycles can be counted; board and replies are those of the machine. -/
theorem run_in_range {program : Program} {settings : Settings} {hostKey : Keystream.Key}
    {start : Machine} (hboot : (boot program settings hostKey).result = .ok start)
    (operations : List Operation)
    (hcycles : (start.after operations).cycles < 0x10000000000000000) :
    ∃ board, start.board.run operations = .ok (start.replies operations, board) ∧
      board = (start.after operations).board ∧ board.InRange := by
  have hsound := sound_of_boot hboot
  refine ⟨_, run_board hsound operations hcycles, rfl, ?_⟩
  exact inRange_board (hsound.after operations)

/-- A skip at the last word of memory leads to the bound, and the next cycle crashes there. -/
theorem run_in_range_last_word :
    let program : Program := ⟨[0x00, 0xE0, 0x30, 0x00]⟩
    let settings : Settings := { programStart := 0xFFC }
    let start := loaded program settings (.ofSeed 0)
    let operations := [.cycle, .key 0xFF true, .frame, .tick]
    (boot program settings (.ofSeed 0)).result = .ok start ∧
      (start.after operations).cycles < 0x10000000000000000 ∧
      (start.after operations).pc.toNat = 0x1002 ∧
      ∃ board, start.board.run operations = .ok (start.replies operations, board) ∧
        board = (start.after operations).board ∧ board.InRange := by
  intro program settings start operations
  have hboot : (boot program settings (.ofSeed 0)).result = .ok start :=
    boot_eq_ok_iff.mpr ⟨by decide, by decide, by decide, rfl⟩
  have hrun : (start.after operations).cycles < 0x10000000000000000 ∧
      (start.after operations).pc.toNat = 0x1002 := by
    decide +kernel
  exact ⟨hboot, hrun.1, hrun.2, run_in_range hboot operations hrun.1⟩

end Machine
end Chip8
