import Chip8.Proofs.InPlace.Agreement
import Chip8.Proofs.Machine.Fault
import Chip8.Proofs.Machine.Frame
import Chip8.Proofs.Machine.Rest

/-!
# When the screen has to be drawn again

The answer to a cycle or a frame tells whether the screen may be new.  It is decided by the words
that are carried out and not by the pixels, so it has to be told whenever a pixel can have changed.

* `Machine.Paints` — the word at the program counter clears the screen or draws.
* `cycle_reports`, `frame_reports` — what the answers to cycles and frames tell.
* `screen_cycle`, `screen_frame` — without such an answer the screen is the old one.
* `screen_apply`, `screen_after` — so it is after every operation and every history without one.
* `no_redraw_is_missed` — all of this, for machines and for boards that are changed in place.
-/

namespace Chip8
namespace Machine

/-- The word at the program counter clears the screen or draws. -/
def Paints (machine : Machine) : Prop :=
  machine.word = 0x00E0 ∨ machine.word.toNat / 0x1000 = 0xD

instance (machine : Machine) : Decidable machine.Paints :=
  inferInstanceAs (Decidable (_ ∨ _))

/-- An instruction that is not known to change the screen leaves it alone. -/
theorem Effect.screen_eq {machine next : Machine} {instruction : Instruction}
    (heffect : machine.Effect instruction next) (hkeeps : instruction.updatesScreen = false) :
    next.screen = machine.screen := by
  cases heffect with
  | clearScreen => cases hkeeps
  | draw => cases hkeeps
  | _ => rfl

section Cycle

variable {machine : Machine}

/-- A cycle that succeeds tells whether its word clears the screen or draws. -/
theorem cycle_reports {updated : Bool} (hdone : machine.cycle.result = .ok updated) :
    updated = true ↔ machine.Paints := by
  obtain ⟨instruction, hdue, -, rfl⟩ := effect_of_ok hdone
  exact updatesScreen_eq_true_iff (due_eq_some_iff.mp hdue).2.2

/-- A cycle that does not tell of a new screen leaves the old one, whether it succeeds or fails. -/
theorem screen_cycle (hquiet : machine.cycle.result ≠ .ok true) :
    machine.cycle.machine.screen = machine.screen := by
  obtain ⟨instruction, -, heffect, hresult⟩ | ⟨crash, -, hsame | hsame⟩ := cycle_effect machine
  · refine heffect.screen_eq (Bool.eq_false_iff.mpr fun hupdates => hquiet ?_)
    rw [hresult, hupdates]
  · rw [hsame]
    rfl
  · rw [hsame]
    rfl

theorem screen_cycled {count : Nat}
    (hquiet : ∀ place < count, (machine.cycled place).cycle.result ≠ .ok true) :
    (machine.cycled count).screen = machine.screen := by
  induction count with
  | zero => rfl
  | succ count ih =>
    rw [cycled_concat, screen_cycle (hquiet count (Nat.lt_succ_self count))]
    exact ih fun place hplace => hquiet place (Nat.lt_succ_of_lt hplace)

/-- A frame that succeeds tells whether one of its words clears the screen or draws. -/
theorem frame_reports {updated : Bool} (hdone : machine.frame.result = .ok updated) :
    updated = true ↔ ∃ place < max 1 (machine.speed.toNat / 60), (machine.cycled place).Paints := by
  rw [← toNat_cyclesPerFrame]
  obtain hall | ⟨place, hplace, crash, hbefore, hfailed⟩ :=
    machine.succeeds_or_failure machine.cyclesPerFrame.toNat
  · obtain ⟨told, hresult, htold, -⟩ := frame_of_succeeds hall
    obtain rfl := Except.ok.inj (hdone.symm.trans hresult)
    rw [htold]
    refine exists_congr fun place => and_congr_right fun hplace => ?_
    obtain ⟨now, hnow⟩ := hall place hplace
    rw [← cycle_reports hnow, hnow, Except.ok.injEq]
  · cases hdone.symm.trans (frame_of_failure hplace hbefore hfailed).1

theorem screen_frame (hquiet : machine.frame.result = .ok false) :
    machine.frame.machine.screen = machine.screen := by
  obtain hall | ⟨place, hplace, crash, hbefore, hfailed⟩ :=
    machine.succeeds_or_failure machine.cyclesPerFrame.toNat
  · obtain ⟨updated, hresult, hupdated, hmachine⟩ := frame_of_succeeds hall
    obtain rfl := Except.ok.inj (hquiet.symm.trans hresult)
    rw [hmachine]
    exact screen_cycled fun place hplace hnew => nomatch hupdated.mpr ⟨place, hplace, hnew⟩
  · cases hquiet.symm.trans (frame_of_failure hplace hbefore hfailed).1

end Cycle

/-! ## Histories -/

section History

variable {machine : Machine}

/-- What a host does without asking for cycles leaves the screen alone. -/
theorem screen_of_not_works {operation : Operation} (hworks : operation.works = false) :
    (operation.apply machine).machine.screen = machine.screen := by
  rw [apply_of_not_works machine hworks]
  rfl

/-- An operation that does not tell of a new screen leaves the old one, unless it is a frame that
fails. -/
theorem screen_apply {operation : Operation}
    (hquiet : (operation.apply machine).reply ≠ .updated true)
    (hframe : operation = .frame → ∀ crash, (operation.apply machine).reply ≠ .crashed crash) :
    (operation.apply machine).machine.screen = machine.screen := by
  cases operation with
  | cycle => exact screen_cycle fun hnew => hquiet (reply_eq_updated_iff.mpr hnew)
  | frame =>
    refine screen_frame ?_
    cases hresult : machine.frame.result with
    | ok updated =>
      cases updated with
      | false => rfl
      | true => exact absurd (reply_eq_updated_iff.mpr hresult) hquiet
    | error crash => exact absurd (reply_eq_crashed_iff.mpr hresult) (hframe rfl crash)
  | tick | key | speed => exact screen_of_not_works rfl

theorem screen_after {operations : List Operation}
    (hquiet : .updated true ∉ machine.replies operations)
    (hframes : ∀ place : Nat, operations[place]? = some .frame →
      ∀ crash, (machine.replies operations)[place]? ≠ some (.crashed crash)) :
    (machine.after operations).screen = machine.screen := by
  induction operations generalizing machine with
  | nil => rfl
  | cons operation rest ih =>
    rw [replies, List.mem_cons, not_or] at hquiet
    rw [after, ih hquiet.2 fun place hplace => hframes (place + 1) hplace]
    refine screen_apply (Ne.symm hquiet.1) ?_
    rintro rfl crash hcrash
    exact hframes 0 rfl crash (congrArg some hcrash)

end History

/-- A cycle that does not tell of a new screen leaves the old one, and so does a frame that succeeds
without telling of one, and whatever a host does besides.  The answer to a cycle or a frame that
succeeds tells of a new screen exactly if a word was carried out that clears the screen or draws.
So the screen is the old one after every history without such an answer and without a frame that
fails; on a board, every word of every pixel is the old one. -/
theorem no_redraw_is_missed :
    (∀ machine : Machine,
      (machine.cycle.result ≠ .ok true → machine.cycle.machine.screen = machine.screen) ∧
      (machine.frame.result = .ok false → machine.frame.machine.screen = machine.screen) ∧
      (∀ operation : Operation, operation.works = false →
        (operation.apply machine).machine.screen = machine.screen) ∧
      (∀ updated, machine.cycle.result = .ok updated → (updated = true ↔ machine.Paints)) ∧
      ∀ updated, machine.frame.result = .ok updated →
        (updated = true ↔
          ∃ place < max 1 (machine.speed.toNat / 60), (machine.cycled place).Paints)) ∧
    ∀ (machine : Machine) (operations : List Operation),
      .updated true ∉ machine.replies operations →
      (∀ place : Nat, operations[place]? = some .frame →
        ∀ crash, (machine.replies operations)[place]? ≠ some (.crashed crash)) →
      (machine.after operations).screen = machine.screen ∧
        (machine.Reachable → (machine.after operations).cycles < 0x10000000000000000 →
          ∃ board, machine.board.run operations = .ok (machine.replies operations, board) ∧
            board.pixels = machine.board.pixels) := by
  constructor
  · intro machine
    exact ⟨screen_cycle, screen_frame, fun _ => screen_of_not_works, fun _ => cycle_reports,
      fun _ => frame_reports⟩
  · intro machine operations hquiet hframes
    have hscreen := screen_after hquiet hframes
    refine ⟨hscreen, fun hreach hroom => ⟨_, run_board hreach.sound operations hroom, ?_⟩⟩
    exact congrArg (fun screen : Screen => screen.words.toArray) hscreen

/-- A frame draws the glyph of zero and tells of it.  Keys, a new speed, a tick and a return to
nowhere afterwards tell of nothing, and leave its pixels and the words of the board alone. -/
theorem no_redraw_is_missed_failed_cycle :
    let program : Program := ⟨[0xD0, 0x05, 0x00, 0xEE]⟩
    let settings : Settings := { speed := 60 }
    let start := loaded program settings (.ofSeed 0)
    let machine := start.after [.frame]
    let history : List Operation := [.key 3 true, .speed 120, .tick, .cycle]
    (boot program settings (.ofSeed 0)).result = .ok start ∧
      (start.Paints ∧ start.frame.result = .ok true ∧ machine.screen ≠ start.screen) ∧
      (machine.after history).status = .crashed ∧
      (machine.after history).screen = machine.screen ∧
      ∃ board, machine.board.run history = .ok (machine.replies history, board) ∧
        board.pixels = machine.board.pixels := by
  intro program settings start machine history
  have hboot : (boot program settings (.ofSeed 0)).result = .ok start :=
    boot_eq_ok_iff.mpr ⟨by decide, by decide, by decide, rfl⟩
  have hreach : machine.Reachable := ⟨_, _, _, start, [.frame], hboot, rfl⟩
  obtain ⟨hpaints, hspeed, hanswer, hnew, hquiet, hcrashed, hcount⟩ :
      start.Paints ∧ max 1 (start.speed.toNat / 60) = 1 ∧
        (∃ updated, start.replies [.frame] = [.updated updated]) ∧
        machine.screen ≠ start.screen ∧ .updated true ∉ machine.replies history ∧
        (machine.after history).status = .crashed ∧
        (machine.after history).cycles < 0x10000000000000000 := by
    decide +kernel
  obtain ⟨updated, hanswer⟩ := hanswer
  -- from here on, these facts are all that is known of the machine
  clear_value start
  have hdone : start.frame.result = .ok updated :=
    reply_eq_updated_iff.mp (List.singleton_inj.mp hanswer)
  obtain ⟨-, -, -, -, hreports⟩ := no_redraw_is_missed.1 start
  obtain rfl := (hreports updated hdone).mpr ⟨0, by omega, hpaints⟩
  have hframes : ∀ place : Nat, history[place]? = some .frame →
      ∀ crash, (machine.replies history)[place]? ≠ some (.crashed crash) := by
    intro place hplace
    have hnone : Operation.frame ∉ history := by decide
    exact absurd (List.mem_of_getElem? hplace) hnone
  obtain ⟨hscreen, hboard⟩ := no_redraw_is_missed.2 machine history hquiet hframes
  exact ⟨hboot, ⟨hpaints, hdone, hnew⟩, hcrashed, hscreen, hboard hreach hcount⟩

end Machine
end Chip8
