import Chip8.Proofs.Machine.Boot
import Chip8.Proofs.Machine.Cycle
import Chip8.Proofs.Machine.History

/-!
# The ranges of a reachable machine

* `Machine.Sound` — the program counter is at most one skip beyond memory, the call stack holds at
  most sixteen addresses behind some instruction, and the font lies before the program.
* `Sound.execute` — an instruction at a fetched word keeps the ranges.
* `Reachable.sound` — every reachable machine keeps within them.
-/

namespace Chip8
namespace Machine

/-- The ranges within which a machine stays. -/
structure Sound (machine : Machine) : Prop where
  /-- A skip at the last word of memory leads farthest. -/
  pc_le : machine.pc.toNat ≤ memorySize + 2
  /-- The stack has room for its pointer. -/
  pointer_le : machine.stack.pointer ≤ stackSize
  /-- Every return address lies behind some word of memory. -/
  held_range : ∀ address ∈ machine.stack.held, 2 ≤ address.toNat ∧ address.toNat ≤ memorySize
  /-- The font ends at or before the program. -/
  font_le : machine.fontStart.toNat + Font.bytes.length ≤ machine.programStart.toNat
  /-- The program starts in memory or at its end. -/
  program_le : machine.programStart.toNat ≤ memorySize

theorem sound_loaded {program : Program} {settings : Settings} (hostKey : Keystream.Key)
    (hfont : settings.fontStart.toNat + Font.bytes.length ≤ settings.programStart.toNat)
    (hprogram : settings.programStart.toNat + program.size ≤ memorySize) :
    (loaded program settings hostKey).Sound where
  pc_le := by
    show settings.programStart.toNat ≤ memorySize + 2
    omega
  pointer_le := Nat.zero_le _
  held_range := nofun
  font_le := hfont
  program_le := Nat.le_trans (Nat.le_add_right _ _) hprogram

/-- The ranges concern the program counter, the stack and the two places alone. -/
theorem Sound.of_same {machine other : Machine} (hsound : machine.Sound)
    (hpc : other.pc = machine.pc) (hstack : other.stack = machine.stack)
    (hfont : other.fontStart = machine.fontStart)
    (hprogram : other.programStart = machine.programStart) : other.Sound where
  pc_le := hpc ▸ hsound.pc_le
  pointer_le := hstack ▸ hsound.pointer_le
  held_range := hstack ▸ hsound.held_range
  font_le := by rw [hfont, hprogram]; exact hsound.font_le
  program_le := hprogram ▸ hsound.program_le

theorem Sound.beginCycle {machine : Machine} (hsound : machine.Sound) : machine.beginCycle.Sound :=
  hsound.of_same rfl rfl rfl rfl

theorem Sound.halt {machine : Machine} (hsound : machine.Sound) : machine.halt.Sound :=
  hsound.of_same rfl rfl rfl rfl

/-- The address behind a word that has been fetched. -/
theorem toNat_pc_add_two {machine : Machine} (hfetch : machine.Fetches) :
    (machine.pc + 2).toNat = machine.pc.toNat + 2 :=
  toNat_pc_goOn (Nat.le_trans (Nat.le_add_right _ 2) hfetch)

/-- An instruction at a word that has been fetched keeps the ranges. -/
theorem Sound.execute {machine next : Machine} {instruction : Instruction} (hsound : machine.Sound)
    (hfetch : machine.Fetches) (hnext : machine.execute instruction = .ok next) : next.Sound := by
  obtain ⟨-, -, hfont, hprogram, -, -⟩ := config_of_execute hnext
  have hstack : next.stack.pointer ≤ stackSize ∧
      ∀ address ∈ next.stack.held, 2 ≤ address.toNat ∧ address.toNat ≤ memorySize := by
    obtain ⟨target, -, hpush⟩ | ⟨-, hpop⟩ | ⟨-, -, hsame⟩ := stack_of_execute hnext
    · obtain ⟨hroom, hpointer⟩ := CallStack.pointer_of_push hpush
      refine ⟨by omega, fun address hmember => ?_⟩
      rw [CallStack.held_push hpush, List.mem_append, List.mem_singleton] at hmember
      rcases hmember with hold | rfl
      · exact hsound.held_range address hold
      · -- the new entry lies behind the call, which was fetched
        rw [toNat_pc_add_two hfetch]
        exact ⟨Nat.le_add_left 2 _, hfetch⟩
    · have hpointer := CallStack.pointer_of_pop hpop
      have hdepth := hsound.pointer_le
      refine ⟨by omega, fun address hmember => hsound.held_range address ?_⟩
      rw [CallStack.held_pop hdepth hpop]
      exact List.mem_append_left _ hmember
    · rw [hsame]
      exact ⟨hsound.pointer_le, hsound.held_range⟩
  exact {
    pc_le := pc_of_execute hfetch (fun address hmember => (hsound.held_range address hmember).2)
      hsound.pointer_le hnext
    pointer_le := hstack.1
    held_range := hstack.2
    font_le := by rw [hfont, hprogram]; exact hsound.font_le
    program_le := by rw [hprogram]; exact hsound.program_le }

theorem Sound.cycle {machine : Machine} (hsound : machine.Sound) : machine.cycle.machine.Sound := by
  obtain ⟨-, hcycle⟩ | ⟨-, fault, records, -, hcycle⟩ |
      ⟨-, -, hfetch, instruction, next, records, -, hexecute, hcycle⟩ := cycle_cases machine
  · rw [hcycle]
    exact hsound.halt
  · rw [hcycle]
    exact hsound.beginCycle.halt
  · rw [hcycle]
    exact hsound.beginCycle.execute hfetch hexecute

theorem kept_sound : Kept Sound where
  cycle _ hsound := hsound.cycle
  tick _ hsound := hsound.of_same rfl rfl rfl rfl
  key _ _ hsound := hsound.of_same rfl rfl rfl rfl
  speed _ _ hsound := hsound.of_same rfl rfl rfl rfl

/-- A machine that has just started keeps within the ranges. -/
theorem sound_of_boot {program : Program} {settings : Settings} {hostKey : Keystream.Key}
    {start : Machine} (hboot : (boot program settings hostKey).result = .ok start) :
    start.Sound := by
  obtain ⟨hfont, -, hprogram, rfl⟩ := boot_eq_ok_iff.mp hboot
  exact sound_loaded hostKey hfont hprogram

/-- Every reachable machine keeps within the ranges. -/
theorem Reachable.sound {machine : Machine} (hreach : machine.Reachable) : machine.Sound :=
  kept_sound.of_reachable (fun _ _ _ _ => sound_of_boot) hreach

end Machine
end Chip8
