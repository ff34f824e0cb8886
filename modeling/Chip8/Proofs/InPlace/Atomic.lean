import Chip8.Proofs.InPlace.Agreement
import Chip8.Proofs.InPlace.Refusal

/-!
# Faults leave no trace

* `fault_leaves_machine` — what a fault leaves of a machine and of a board, and what its crash
  tells.
-/

namespace Chip8
namespace Machine

/-- A fault changes nothing but the status and the number of cycles, and its crash tells where it
occurred, which word was fetched there and how the machine looks afterwards.  This holds of every
machine, and of every board that is changed in place, step by step. -/
theorem fault_leaves_machine :
    (∀ (machine : Machine) (crash : Crash), machine.cycle.result = .error crash →
      crash.address = machine.pc ∧ crash.address = machine.cycle.machine.pc ∧
        crash.dump = machine.cycle.machine.snapshot ∧
        (machine.status ≠ .crashed →
          machine.cycle.machine =
              { machine with status := .crashed, cycles := machine.cycles + 1 } ∧
            crash.word = machine.fetched) ∧
        (machine.status = .crashed →
          machine.cycle.machine = machine ∧ crash.fault = .halted ∧ crash.word = none) ∧
        (machine.Reachable → machine.cycle.machine.cycles < 0x10000000000000000 →
          Work.cycle.on machine.board = (.refused crash, machine.cycle.machine.board))) ∧
      ∀ (board later : Board) (crash : Crash), Work.cycle.on board = (.refused crash, later) →
        crash.address = board.pc ∧ crash.address = later.pc ∧ crash.dump = later.snapshot ∧
          (board.status ≠ .crashed →
            later = { board with status := .crashed, cycles := board.cycles + 1 } ∧
              crash.word = board.fetched) ∧
          (board.status = .crashed →
            later = board ∧ crash.fault = .halted ∧ crash.word = none) := by
  constructor
  · intro machine crash hresult
    have hboard : machine.Reachable → machine.cycle.machine.cycles < 0x10000000000000000 →
        Work.cycle.on machine.board = (.refused crash, machine.cycle.machine.board) := fun hreach =>
      Work.cycle_apply_refused hreach.sound hresult
    by_cases hcrashed : machine.status = .crashed
    · obtain ⟨hsame, rfl⟩ := crash_of_crashed hcrashed hresult
      refine ⟨rfl, ?_, ?_, fun hlive => absurd hcrashed hlive, fun _ => ⟨hsame, rfl, rfl⟩, hboard⟩
      · rw [hsame]
      · rw [hsame]
    · obtain ⟨-, hhalted, hcrash⟩ := crash_of_cycle hcrashed hresult
      refine ⟨?_, ?_, ?_, fun _ => ⟨hhalted, ?_⟩, fun h => absurd h hcrashed, hboard⟩
      · rw [hcrash]
        rfl
      · rw [hcrash, hhalted]
        rfl
      · rw [hcrash, hhalted]
        rfl
      · rw [hcrash]
        rfl
  · intro board later crash hrefused
    by_cases hcrashed : board.status = .crashed
    · rw [Work.cycle_refused_of_crashed hcrashed] at hrefused
      cases hrefused
      exact ⟨rfl, rfl, rfl, fun hlive => absurd hcrashed hlive, fun _ => ⟨rfl, rfl, rfl⟩⟩
    · have hwreck := Work.cycle_refused hcrashed hrefused
      have hpc : later.pc = board.pc := by rw [hwreck.later_eq]
      refine ⟨hwreck.address_eq, hwreck.address_eq.trans hpc.symm, hwreck.dump_eq, fun _ => ?_,
        fun h => absurd h hcrashed⟩
      exact ⟨hwreck.later_eq, hwreck.word_eq⟩

/-- Storing two registers at the last byte of memory is refused, and so is whatever comes after. -/
theorem fault_leaves_machine_last_byte :
    let program : Program := ⟨[0xAF, 0xFF, 0x61, 0x05, 0xF1, 0x55]⟩
    let start := loaded program {} (.ofSeed 0)
    let machine := start.after [.cycle, .cycle]
    let crash := machine.beginCycle.crash machine.fetched (.addressOutOfBounds 0x1000)
    let wreck := machine.beginCycle.halt
    (boot program {} (.ofSeed 0)).result = .ok start ∧
      (machine.cycle.result = .error crash ∧ machine.status ≠ .crashed ∧
        machine.cycle.machine.cycles < 0x10000000000000000) ∧
      (machine.cycle.machine = { machine with status := .crashed, cycles := machine.cycles + 1 } ∧
        crash.word = some 0xF155 ∧ crash.dump = machine.cycle.machine.snapshot) ∧
      (Work.cycle.on machine.board = (.refused crash, machine.cycle.machine.board) ∧
        machine.cycle.machine.board =
          { machine.board with status := .crashed, cycles := machine.board.cycles + 1 }) ∧
      wreck.status = .crashed ∧ wreck.cycle.result = .error (wreck.crash none .halted) ∧
      wreck.cycle.machine = wreck := by
  intro program start machine crash wreck
  have hboot : (boot program {} (.ofSeed 0)).result = .ok start :=
    boot_eq_ok_iff.mpr ⟨by decide, by decide, by decide, rfl⟩
  have hreach : machine.Reachable := ⟨_, _, _, start, [.cycle, .cycle], hboot, rfl⟩
  have hrun : machine.status ≠ .crashed ∧ machine.cycle.machine.cycles < 0x10000000000000000 ∧
      machine.fault? = some (.addressOutOfBounds 0x1000) ∧ machine.fetched = some 0xF155 := by
    decide +kernel
  obtain ⟨hlive, hroom, hfault, hfetched⟩ := hrun
  have hresult : machine.cycle.result = .error crash := by
    obtain ⟨records, hcycle⟩ := cycle_of_fault hlive hfault
    rw [hcycle]
    rfl
  have hhalted : wreck.cycle.result = .error (wreck.crash none .halted) := by
    rw [cycle_of_crashed rfl]
    rfl
  obtain ⟨-, -, hdump, hleft, -, hboard⟩ := fault_leaves_machine.1 machine crash hresult
  have hrefused := hboard hreach hroom
  obtain ⟨-, -, -, hkept, -⟩ := fault_leaves_machine.2 _ _ _ hrefused
  obtain ⟨-, -, -, -, hsame, -⟩ := fault_leaves_machine.1 wreck _ hhalted
  exact ⟨hboot, ⟨hresult, hlive, hroom⟩, ⟨(hleft hlive).1, (hleft hlive).2.trans hfetched, hdump⟩,
    ⟨hrefused, (hkept hlive).1⟩, rfl, hhalted, (hsame rfl).1⟩

end Machine
end Chip8
