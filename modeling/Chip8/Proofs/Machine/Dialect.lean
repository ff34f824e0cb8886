import Chip8.Proofs.Machine.Calls
import Chip8.Proofs.Machine.Frame
import Chip8.Proofs.Machine.Start
import Chip8.Proofs.Screen.Overhang

/-!
# Machines that speak different dialects

Two machines that differ in their dialect go through a history alike until they come to an
instruction on which the dialects disagree.

* `Machine.disputes` — the instructions on which a machine and another dialect disagree.
* `Machine.Undisputed` — a history comes to none of them.
* `ignores_dialect` — all other instructions look past the dialect.
* `apply_setDialect`, `Undisputed.after` — so do operations, and histories without frames.
* `Steady` — a plan that follows the machine does not depend on its dialect up to the first disputed
  instruction; `steady_unroll` — what a history consists of is steady.
* `boot_setDialect` — the dialect does not matter to a start.
* `dialects_part_at_disputes` — two machines that were started alike but for the dialect.
-/

namespace Chip8
namespace Machine

/-- The same machine with another dialect. -/
def setDialect (machine : Machine) (dialect : Dialect) : Machine :=
  { machine with dialect }

/-- Whether the effect of an instruction depends on which of two dialects the machine speaks, its
own or another one.  An access outside memory is refused in either. -/
def disputes (other : Dialect) (machine : Machine) : Instruction → Bool
  | .storeBlock x | .loadBlock x =>
      machine.dialect.blockMovesIndex != other.blockMovesIndex &&
        decide (machine.index.toNat + (x.val + 1) ≤ memorySize)
  | .combine .or _ _ | .combine .and _ _ | .combine .xor _ _ =>
      machine.dialect.logicClearsFlag != other.logicClearsFlag
  | .combine .shiftRight x y | .combine .shiftLeft x y =>
      machine.dialect.shiftReadsSecond != other.shiftReadsSecond && x != y
  | .jumpOffset base =>
      machine.dialect.jumpReadsNamed != other.jumpReadsNamed && base.val / 256 != 0
  | .draw x y rows =>
      machine.dialect.edge != other.edge &&
        decide (machine.index.toNat + rows.val ≤ memorySize ∧
          Screen.Overhangs ((machine.registers.get x).toNat % screenWidth)
            ((machine.registers.get y).toNat % screenHeight)
            (machine.memory.slice machine.index.toNat rows.val))
  | _ => false

/-- No cycle of a history without frames attempts an instruction on which the machine and another
dialect disagree. -/
def Undisputed (other : Dialect) (machine : Machine) : List Operation → Prop
  | [] => True
  | operation :: rest =>
      (operation = .cycle →
        ∀ instruction ∈ machine.due, machine.disputes other instruction = false) ∧
        (operation.apply machine).machine.Undisputed other rest

instance decidableUndisputed (other : Dialect) (machine : Machine) :
    (history : List Operation) → Decidable (machine.Undisputed other history)
  | [] => .isTrue trivial
  | operation :: rest =>
      haveI := decidableUndisputed other (operation.apply machine).machine rest
      inferInstanceAs (Decidable ((_ → _) ∧ _))

/-- A change of the dialect. -/
def speaking (other : Dialect) : Recast := { dialect := fun _ => other }

section Dialects

variable {other : Dialect} {machine : Machine}

/-! ## One instruction -/

theorem combine_of_not_disputes {op : Combine} {x y : Digit}
    (hagreed : machine.disputes other (.combine op x y) = false) :
    machine.registers.combine other op x y =
      machine.registers.combine machine.dialect op x y := by
  cases op with
  | or | and | xor =>
    have hsame : machine.dialect.logicClearsFlag = other.logicClearsFlag :=
      bne_eq_false_iff_eq.mp hagreed
    simp only [Registers.combine, Combine.apply, hsame]
  | shiftRight | shiftLeft =>
    obtain hsame | rfl : machine.dialect.shiftReadsSecond = other.shiftReadsSecond ∨ x = y := by
      simpa [disputes, Classical.or_iff_not_imp_left] using hagreed
    · simp only [Registers.combine, Combine.apply, hsame]
    · simp only [Registers.combine, Combine.apply, ite_self]
  | _ => rfl

theorem jumpTarget_of_not_disputes {base : Address}
    (hagreed : machine.disputes other (.jumpOffset base) = false) :
    (machine.setDialect other).jumpTarget base = machine.jumpTarget base := by
  obtain hsame | hzero :
      machine.dialect.jumpReadsNamed = other.jumpReadsNamed ∨ base.val / 256 = 0 := by
    simpa [disputes, Classical.or_iff_not_imp_left] using hagreed
  · unfold jumpTarget
    rw [hsame]
    rfl
  · simp only [jumpTarget, setDialect, hzero, ite_self]

theorem draw_of_not_disputes {x y rows : Digit}
    (hagreed : machine.disputes other (.draw x y rows) = false) {sprite : List UInt8}
    (hread : machine.memory.read machine.index.toNat rows.val = .ok sprite) :
    Screen.draw other.edge (machine.registers.get x).toNat (machine.registers.get y).toNat sprite
        machine.screen =
      Screen.draw machine.dialect.edge (machine.registers.get x).toNat
        (machine.registers.get y).toNat sprite machine.screen := by
  obtain ⟨hfits, rfl⟩ := Memory.read_eq_ok_iff.mp hread
  rw [disputes, Bool.and_eq_false_iff, bne_eq_false_iff_eq, decide_eq_false_iff_not] at hagreed
  obtain hsame | hinside := hagreed
  · rw [hsame]
  · exact Screen.draw_eq_of_not_overhangs _ _ (fun hover => hinside ⟨hfits, hover⟩) _

/-- An instruction that is not disputed looks past the dialect. -/
theorem ignores_dialect {instruction : Instruction}
    (hagreed : machine.disputes other instruction = false) :
    machine.Ignores (speaking other) instruction := by
  cases instruction with
  | skipIf condition => cases condition <;> rfl
  | combine op x y => exact combine_of_not_disputes hagreed
  | jumpOffset base => exact jumpTarget_of_not_disputes hagreed
  | draw x y rows => exact fun sprite hread => draw_of_not_disputes hagreed hread
  | storeBlock x | loadBlock x =>
    intro hfits
    rw [disputes, decide_eq_true hfits, Bool.and_true, bne_eq_false_iff_eq] at hagreed
    unfold indexAfterBlock
    rw [hagreed]
    rfl
  | _ => trivial

section Cycle

variable (hagreed : ∀ instruction ∈ machine.due, machine.disputes other instruction = false)

include hagreed

theorem unseen_dialect : machine.Unseen (speaking other) :=
  fun instruction hdue => ignores_dialect (hagreed instruction hdue)

/-- A cycle that does not come to a disputed instruction looks past the dialect. -/
theorem cycle_setDialect :
    (machine.setDialect other).cycle.machine = machine.cycle.machine.setDialect other ∧
      (machine.setDialect other).cycle.result = machine.cycle.result :=
  ⟨(cycle_recast (unseen_dialect hagreed)).1, result_recast rfl (unseen_dialect hagreed)⟩

end Cycle

/-! ## Histories -/

/-- An operation that does not come to a disputed instruction looks past the dialect. -/
theorem apply_setDialect {operation : Operation} (hframe : operation ≠ .frame)
    (hagreed : operation = .cycle →
      ∀ instruction ∈ machine.due, machine.disputes other instruction = false) :
    (operation.apply (machine.setDialect other)).machine =
        (operation.apply machine).machine.setDialect other ∧
      (operation.apply (machine.setDialect other)).reply = (operation.apply machine).reply :=
  apply_recast rfl rfl (.inr rfl) hframe fun hcycle => unseen_dialect (hagreed hcycle)

/-- A history without frames that comes to no disputed instruction looks past the dialect. -/
theorem Undisputed.after {history : List Operation} (hagreed : machine.Undisputed other history)
    (hframe : .frame ∉ history) :
    (machine.setDialect other).after history = (machine.after history).setDialect other ∧
      (machine.setDialect other).replies history = machine.replies history := by
  induction history generalizing machine with
  | nil => exact ⟨rfl, rfl⟩
  | cons operation rest ih =>
    rw [List.mem_cons, not_or] at hframe
    obtain ⟨hmachine, hreply⟩ := apply_setDialect (Ne.symm hframe.1) hagreed.1
    obtain ⟨hafter, hreplies⟩ := ih hagreed.2 hframe.2
    rw [Machine.after, Machine.replies, hmachine, hreply]
    exact ⟨hafter, congrArg (_ :: ·) hreplies⟩

/-! ## What histories consist of -/

/-- A plan that follows the machine is the same in another dialect, up to the first instruction on
which the dialects disagree. -/
def Steady (other : Dialect) (plan : Machine → List Operation) : Prop :=
  ∀ machine length, machine.Undisputed other ((plan machine).take length) →
    (plan (machine.setDialect other)).take length = (plan machine).take length

section Steady

variable {plan : Machine → List Operation} (hplan : Steady other plan)

include hplan

theorem Steady.cons {operation : Operation} (hframe : operation ≠ .frame) :
    Steady other fun machine => operation :: plan (operation.apply machine).machine := by
  intro machine length hagreed
  cases length with
  | zero => rfl
  | succ length =>
    obtain ⟨hfirst, hrest⟩ := hagreed
    show operation :: (plan _).take length = operation :: _
    rw [(apply_setDialect hframe hfirst).1, hplan _ length hrest]

/-- What a frame consists of can be put before a plan. -/
theorem Steady.frame (count : Nat) :
    Steady other fun machine =>
      machine.frameSteps count ++ plan (machine.after (machine.frameSteps count)) := by
  induction count with
  | zero => exact hplan.cons (by decide : Operation.tick ≠ .frame)
  | succ count ih =>
    intro machine length hagreed
    cases length with
    | zero => rfl
    | succ length =>
      -- the cycle is answered alike, so the frame ends with it in both dialects or in neither
      cases hresult : machine.cycle.result with
      | ok updated =>
        simp only [frameSteps_of_ok count hresult] at hagreed ⊢
        obtain ⟨hmachine, hsame⟩ := cycle_setDialect (hagreed.1 rfl)
        have hrest := ih machine.cycle.machine length hagreed.2
        rw [frameSteps_of_ok count (hsame.trans hresult)]
        rw [← hmachine] at hrest
        exact congrArg (.cycle :: ·) hrest
      | error crash =>
        simp only [frameSteps_of_error count hresult] at hagreed ⊢
        obtain ⟨hmachine, hsame⟩ := cycle_setDialect (hagreed.1 rfl)
        have hrest := hplan machine.cycle.machine length hagreed.2
        rw [frameSteps_of_error count (hsame.trans hresult)]
        rw [← hmachine] at hrest
        exact congrArg (.cycle :: ·) hrest

/-- A plan that comes to no disputed instruction is the same in another dialect. -/
theorem Steady.eq (hagreed : machine.Undisputed other (plan machine)) :
    plan (machine.setDialect other) = plan machine := by
  let length := max (plan (machine.setDialect other)).length (plan machine).length
  have hwhole : (plan machine).take length = plan machine :=
    List.take_of_length_le (Nat.le_max_right ..)
  have htake := hplan machine length (hwhole.symm ▸ hagreed)
  rwa [hwhole, List.take_of_length_le (Nat.le_max_left ..)] at htake

end Steady

/-- What a history consists of is the same in another dialect, up to the first instruction on which
the dialects disagree. -/
theorem steady_unroll (operations : List Operation) : Steady other (·.unroll operations) := by
  induction operations with
  | nil => exact fun _ _ _ => rfl
  | cons operation rest ih =>
    cases operation with
    | frame =>
      intro machine length hagreed
      have hsteps : ∀ machine : Machine, machine.unroll (.frame :: rest) =
          machine.steps .frame ++ (machine.after (machine.steps .frame)).unroll rest := by
        intro machine
        rw [unroll, after_steps]
      simp only [hsteps] at hagreed ⊢
      exact ih.frame machine.cyclesPerFrame.toNat machine length hagreed
    | _ => exact ih.cons fun hframe => by cases hframe

end Dialects

/-! ## The start -/

theorem placeFont_setDialect (machine : Machine) (other : Dialect) :
    (machine.setDialect other).placeFont = machine.placeFont.map (·.setDialect other) := by
  rw [placeFont_eq, placeFont_eq, apply_ite (Except.map _), apply_ite (Except.map _)]
  rfl

theorem placeProgram_setDialect (machine : Machine) (other : Dialect) (program : Program) :
    (machine.setDialect other).placeProgram program =
      (machine.placeProgram program).map (·.setDialect other) := by
  rw [placeProgram_eq, placeProgram_eq, apply_ite (Except.map _), apply_ite (Except.map _),
    apply_ite (Except.map _)]
  rfl

/-- The dialect does not matter to a start. -/
theorem boot_setDialect (program : Program) (settings : Settings) (other : Dialect)
    {hostKey otherKey : Keystream.Key} (hkey : settings.seed = none → otherKey = hostKey) :
    (boot program { settings with dialect := other } otherKey).result =
      (boot program settings hostKey).result.map (·.setDialect other) := by
  have hpowerOn : powerOn { settings with dialect := other } otherKey =
      (powerOn settings hostKey).setDialect other := by
    cases hseed : settings.seed with
    | none => simp only [powerOn, setDialect, hseed, hkey hseed]
    | some seed => simp only [powerOn, setDialect, hseed]
  simp only [boot, hpowerOn, placeFont_setDialect]
  cases (powerOn settings hostKey).placeFont with
  | error fault => rfl
  | ok withFont =>
    simp only [Except.map, placeProgram_setDialect]
    cases withFont.placeProgram program with
    | error fault => rfl
    | ok ready => rfl

/-! ## Two machines -/

/-- Two machines that are started with the same program and with settings that differ in the dialect
at most, and share what the random bytes come from, stay equal apart from the dialect and give the
same answers up to the first cycle that attempts an instruction on which the dialects disagree:
a block move, a bitwise combination, a shift between different registers, a computed jump whose
first digit is not zero, or a sprite with a set bit beyond the right or the bottom edge, each under
the choice that it depends on.  If no cycle of a history does, they end alike and answer all of it
alike. -/
theorem dialects_part_at_disputes (program : Program) (settings : Settings) (other : Dialect)
    {hostKey otherKey : Keystream.Key} (hkey : settings.seed = none → otherKey = hostKey) :
    (boot program { settings with dialect := other } otherKey).result =
        (boot program settings hostKey).result.map (·.setDialect other) ∧
      ∀ first, (boot program settings hostKey).result = .ok first →
        ∀ operations : List Operation,
          let second := first.setDialect other
          let history := first.unroll operations
          (∀ length, first.Undisputed other (history.take length) →
            let common := history.take length
            (second.unroll operations).take length = common ∧
              second.after common = (first.after common).setDialect other ∧
              second.replies common = first.replies common) ∧
            (first.Undisputed other history →
              second.after operations = (first.after operations).setDialect other ∧
                second.replies operations = first.replies operations) := by
  refine ⟨boot_setDialect program settings other hkey, fun first _ operations => ?_⟩
  intro second history
  constructor
  · intro length hagreed common
    have hframe : .frame ∉ common := fun hmember =>
      frame_notMem_unroll first operations (List.mem_of_mem_take hmember)
    exact ⟨steady_unroll operations first length hagreed, hagreed.after hframe⟩
  · intro hagreed
    obtain ⟨hafter, hreplies⟩ := hagreed.after (frame_notMem_unroll first operations)
    have hhistory : second.unroll operations = history := (steady_unroll operations).eq hagreed
    constructor
    · rw [← after_unroll second, hhistory, hafter, after_unroll]
    · rw [← gather_unroll second, hhistory, hreplies, gather_unroll]

/-- Two sprites under clipping and wrapping: the first ends at the right edge, and the second, drawn
in the third frame, reaches beyond it. -/
theorem dialects_part_at_overhanging_sprite :
    let program : Program :=
      ⟨[0x60, 0x3C, 0xA2, 0x0A, 0xD0, 0x11, 0x60, 0x3D, 0xD0, 0x11, 0xF0, 0x00]⟩
    let settings : Settings := { speed := 120 }
    let other : Dialect := { edge := .wrap }
    let first := loaded program settings (.ofSeed 0)
    let second := first.setDialect other
    let common : List Operation := [.cycle, .cycle, .tick, .key 1 true, .cycle, .cycle, .tick]
    let operations : List Operation := [.frame, .key 1 true, .frame, .frame]
    (boot program { settings with dialect := other } (.ofSeed 0)).result = .ok second ∧
      first.Undisputed other ((first.unroll operations).take 7) ∧
      (first.unroll operations).take 7 = common ∧ (second.unroll operations).take 7 = common ∧
      second.after common = (first.after common).setDialect other ∧
      second.replies common = first.replies common ∧
      (first.after common).screen.pixel 63 0 = true ∧
      ¬ first.Undisputed other (common ++ [.cycle]) ∧
      (first.after common).cycle.machine.screen.pixel 0 0 = false ∧
      (second.after common).cycle.machine.screen.pixel 0 0 = true := by
  intro program settings other first second common operations
  have hboot : (boot program settings (.ofSeed 0)).result = .ok first :=
    boot_eq_ok_iff.mpr ⟨by decide, by decide, by decide, rfl⟩
  obtain ⟨hcommon, hagreed, hlit, hdisputed, hclipped, hwrapped⟩ :
      (first.unroll operations).take 7 = common ∧ first.Undisputed other common ∧
        (first.after common).screen.pixel 63 0 = true ∧
        ¬ first.Undisputed other (common ++ [.cycle]) ∧
        (first.after common).cycle.machine.screen.pixel 0 0 = false ∧
        (second.after common).cycle.machine.screen.pixel 0 0 = true := by
    decide +kernel
  rw [← hcommon] at hagreed
  obtain ⟨hresult, hlaw⟩ := dialects_part_at_disputes program settings other
    (fun _ => rfl : settings.seed = none → Keystream.Key.ofSeed 0 = .ofSeed 0)
  rw [hboot] at hresult
  obtain ⟨htake, hafter, hreplies⟩ := (hlaw first hboot operations).1 7 hagreed
  rw [hcommon] at htake hafter hreplies
  exact ⟨hresult, hagreed, hcommon, htake, hafter, hreplies, hlit, hdisputed, hclipped, hwrapped⟩

end Machine
end Chip8
