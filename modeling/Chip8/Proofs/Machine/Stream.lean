import Chip8.Proofs.InPlace.Agreement
import Chip8.Proofs.Machine.Calls
import Chip8.Proofs.Machine.Rest

/-!
# Random bytes over a history

A machine draws a random byte when it carries out the instruction that asks for one, and at no other
time.  So the place of its next byte in the keystream is the number of those instructions.

* `Machine.draws` — the next cycle carries out an instruction that asks for a random byte.
* `random_cycle`, `random_step` — one byte is drawn by such a cycle, and none by anything else.
* `random_after` — over a history, as many bytes are drawn as such cycles were asked for.
* `random_reads_stream` — after a start with a seed, every instruction that asks for a random byte
  gets the byte of its number; a board takes it from the supply that it holds.
-/

namespace Chip8
namespace Machine

/-- The next cycle carries out an instruction that asks for a random byte. -/
def draws (machine : Machine) : Bool :=
  match machine.due with
  | some (.random _ _) => true
  | _ => false

theorem draws_eq_true_iff {machine : Machine} :
    machine.draws = true ↔ ∃ x nn, machine.due = some (.random x nn) := by
  unfold draws
  split
  · next x nn hdue => exact iff_of_true rfl ⟨x, nn, hdue⟩
  · next hother => exact iff_of_false nofun fun ⟨x, nn, hdue⟩ => hother x nn hdue

/-- An instruction that asks for a random byte is never refused; it keeps the next byte under its
mask. -/
theorem cycle_of_random {machine : Machine} {x : Digit} {nn : UInt8}
    (hdue : machine.due = some (.random x nn)) :
    machine.cycle.result = .ok false ∧ machine.cycle.machine.random = machine.random.advance ∧
      machine.cycle.machine.registers.get x = machine.random.peek &&& nn := by
  obtain ⟨heffect, hresult⟩ := effect_of_due hdue rfl
  refine ⟨hresult, ?_⟩
  generalize machine.cycle.machine = next at heffect
  cases heffect with
  | random => exact ⟨rfl, Registers.get_set_self ..⟩

/-- A cycle draws one byte if its instruction asks for one, and none otherwise. -/
theorem random_cycle (machine : Machine) :
    machine.cycle.machine.random =
      if machine.draws then machine.random.advance else machine.random := by
  cases hdraws : machine.draws with
  | true =>
    obtain ⟨x, nn, hdue⟩ := draws_eq_true_iff.mp hdraws
    exact (cycle_of_random hdue).2.1
  | false =>
    have hother : ∀ x nn, machine.due ≠ some (.random x nn) := fun x nn hdue =>
      Bool.false_ne_true (hdraws.symm.trans (draws_eq_true_iff.mpr ⟨x, nn, hdue⟩))
    obtain ⟨instruction, hdue, heffect, -⟩ | ⟨crash, -, hsame | hsame⟩ := cycle_effect machine
    · generalize machine.cycle.machine = next at heffect
      cases heffect with
      | random => exact absurd hdue (hother _ _)
      | _ => rfl
    · rw [hsame]
      rfl
    · rw [hsame]
      rfl

theorem random_step (machine : Machine) {operation : Operation} (hframe : operation ≠ .frame) :
    (operation.apply machine).machine.random = ⟨machine.random.key,
      machine.random.drawn + if operation = .cycle ∧ machine.draws then 1 else 0⟩ := by
  cases hworks : operation.works with
  | false =>
    have hother : operation ≠ .cycle := by
      rintro rfl
      cases hworks
    rw [apply_of_not_works machine hworks, if_neg fun h => hother h.1]
    rfl
  | true =>
    cases operation with
    | cycle =>
      refine (random_cycle machine).trans ?_
      cases machine.draws <;> rfl
    | frame => exact absurd rfl hframe
    | _ => cases hworks

/-- Over a history, as many bytes are drawn as cycles were asked of machines at an instruction that
asks for one. -/
theorem random_after (machine : Machine) {history : List Operation} (hframe : .frame ∉ history) :
    (machine.after history).random =
      ⟨machine.random.key, machine.random.drawn + machine.count draws history⟩ := by
  induction history generalizing machine with
  | nil => rfl
  | cons operation rest ih =>
    rw [List.mem_cons, not_or] at hframe
    rw [after, ih _ hframe.2, random_step machine (Ne.symm hframe.1), count, Nat.add_assoc]

/-- A machine started with a seed has, at every point of its history, drawn as many bytes as
instructions that ask for one have been carried out; so the instruction behind so many others gets
the low byte of the word that has their number in the keystream of the seed, under its mask.  That
is the byte of a supply that hands out the words of one block after the other, and a board, which
holds such a supply, gets it from there. -/
theorem random_reads_stream {program : Program} {settings : Settings} {hostKey : Keystream.Key}
    {start : Machine} {seed : UInt64} (hseed : settings.seed = some seed)
    (hboot : (boot program settings hostKey).result = .ok start) (operations : List Operation) :
    let history := start.unroll operations
    (.frame ∉ history ∧ start.after history = start.after operations) ∧
      ∀ length,
        let machine := start.stage history length
        let drawn := start.count draws (history.take length)
        machine.random = ⟨.ofSeed seed, drawn⟩ ∧
          machine.board.random = (Supply.ofKey (.ofSeed seed)).skip drawn ∧
          ∀ x nn, history[length]? = some .cycle → machine.due = some (.random x nn) →
            machine.cycle.result = .ok false ∧
              (machine.cycle.machine.cycles < 0x10000000000000000 →
                Work.cycle.on machine.board = (.done false, machine.cycle.machine.board)) ∧
              ∃ word,
                (Keystream.block (.ofSeed seed) (.ofNat (drawn / 16))).words[drawn % 16]? =
                  some word ∧
                ((Supply.ofKey (.ofSeed seed)).skip drawn).next.1 = word.toUInt8 ∧
                (start.stage history (length + 1)).registers.get x = word.toUInt8 &&& nn := by
  intro history
  have hframe := frame_notMem_unroll start operations
  refine ⟨⟨hframe, after_unroll start operations⟩, fun length => ?_⟩
  intro machine drawn
  have hfresh : start.random = .ofSeed seed := by
    obtain ⟨-, -, -, rfl⟩ := boot_eq_ok_iff.mp hboot
    simp only [loaded, powerOn, hseed]
  have hrandom : machine.random = ⟨.ofSeed seed, drawn⟩ := by
    have hfree : .frame ∉ history.take length := fun hmember =>
      hframe (List.mem_of_mem_take hmember)
    have hafter := random_after start hfree
    rw [hfresh] at hafter
    exact hafter.trans (congrArg (Random.mk _) (Nat.zero_add _))
  have hboard : machine.board.random = (Supply.ofKey (.ofSeed seed)).skip drawn := by
    rw [Supply.skip_ofKey, ← hrandom]
    rfl
  refine ⟨hrandom, hboard, fun x nn hcycle hdue => ?_⟩
  obtain ⟨hresult, -, hregister⟩ := cycle_of_random hdue
  let words := (Keystream.block (.ofSeed seed) (.ofNat (drawn / 16))).words
  have hplace : drawn % 16 < words.length := Nat.mod_lt _ (Nat.succ_pos 15)
  have hword : words[drawn % 16]? = some words[drawn % 16] := List.getElem?_eq_getElem hplace
  have hbyte : Keystream.byte (.ofSeed seed) drawn = words[drawn % 16].toUInt8 := by
    show (words[drawn % 16]?.getD 0).toUInt8 = _
    rw [hword, Option.getD_some]
  have hsound : machine.Sound := (sound_of_boot hboot).after (history.take length)
  refine ⟨hresult, Work.cycle_apply_done hsound hresult, _, hword,
    (Supply.next_skip _ _).trans hbyte, ?_⟩
  rw [stage_of_getElem? start hcycle]
  show machine.cycle.machine.registers.get x = _
  rw [hregister, hrandom, ← hbyte]
  rfl

/-- An instruction with an empty mask draws the first byte at the beginning of a frame; after a
tick, another one in a cycle of its own gets the second byte of the seed, from what the board's
supply has left of its first block. -/
theorem random_reads_stream_second_byte :
    let program : Program := ⟨[0xC0, 0x00, 0x60, 0x07, 0xC1, 0xFF, 0x12, 0x00]⟩
    let settings : Settings := { speed := 120, seed := some 1 }
    let start := loaded program settings (.ofSeed 0)
    let history := start.unroll [.frame, .tick, .cycle, .frame]
    (boot program settings (.ofSeed 0)).result = .ok start ∧
      history = [.cycle, .cycle, .tick, .tick, .cycle, .cycle, .cycle, .tick] ∧
      start.due = some (.random (.ofNat 0) 0x00) ∧
      (start.stage history 4).due = some (.random (.ofNat 1) 0xFF) ∧
      (start.stage history 4).random.drawn = 1 ∧
      (start.stage history 5).registers.get (.ofNat 1) = 0x64 ∧
      (start.stage history 4).board.random = (Supply.ofKey (.ofSeed 1)).skip 1 ∧
      Work.cycle.on (start.stage history 4).board =
        (.done false, (start.stage history 4).cycle.machine.board) := by
  intro program settings start history
  have hboot : (boot program settings (.ofSeed 0)).result = .ok start :=
    boot_eq_ok_iff.mpr ⟨by decide, by decide, by decide, rfl⟩
  obtain ⟨hhistory, hfirst, hdue, hdrawn, hroom, hbyte⟩ :
      history = [.cycle, .cycle, .tick, .tick, .cycle, .cycle, .cycle, .tick] ∧
        start.due = some (.random (.ofNat 0) 0x00) ∧
        (start.stage history 4).due = some (.random (.ofNat 1) 0xFF) ∧
        start.count draws (history.take 4) = 1 ∧
        (start.stage history 4).cycle.machine.cycles < 0x10000000000000000 ∧
        Keystream.byte (.ofSeed 1) 1 = 0x64 := by
    decide +kernel
  obtain ⟨-, hstream⟩ := random_reads_stream rfl hboot [.frame, .tick, .cycle, .frame]
  obtain ⟨hrandom, hboard, hregister⟩ := hstream 4
  rw [hdrawn] at hrandom hboard hregister
  obtain ⟨-, hdone, word, -, hsupply, hkept⟩ := hregister _ _ (congrArg (·[4]?) hhistory) hdue
  refine ⟨hboot, hhistory, hfirst, hdue, congrArg Random.drawn hrandom, ?_, hboard, hdone hroom⟩
  rw [hkept, ← hsupply, Supply.next_skip, hbyte]
  rfl

end Machine
end Chip8
