import Chip8.Proofs.InPlace.Moves
import Chip8.Proofs.Machine.Cycle

/-!
# What a refusal leaves behind

Work on a board is changed in place, so a refused instruction could leave half of its effect behind.
It does not: all that can be refused is asked for before the board is changed.

* `Reads`, `Calm`, `Clean` — work that never changes the board, work that is never refused, and work
  that leaves the board as it was if it is refused.
* `Clean.read_then`, `Clean.then_calm` — how clean work is put together.
* `carryOut_clean` — the instructions are clean.
* `perform_refused` — the program counter, which moves on first, is moved back.
* `cycle_refused` — what a refused cycle leaves on any board, and what it tells.
-/

namespace Chip8
namespace Work

variable {ε α β : Type}

/-- Work that never changes the board. -/
def Reads (work : Work ε α) : Prop :=
  ∀ board, (work.on board).2 = board

/-- Work that is never refused. -/
def Calm (work : Work ε α) : Prop :=
  ∀ board cause, (work.on board).1 ≠ .refused cause

/-- Work that leaves the board as it was if it is refused. -/
def Clean (work : Work ε α) : Prop :=
  ∀ board cause later, work.on board = (.refused cause, later) → later = board

section Parts

variable {work : Work ε α} {next : α → Work ε β}

theorem Reads.clean (hreads : Reads work) : Clean work := by
  intro board cause later hrefused
  have hsame := hreads board
  rw [hrefused] at hsame
  exact hsame

theorem Calm.clean (hcalm : Calm work) : Clean work := by
  intro board cause later hrefused
  exact absurd (congrArg Prod.fst hrefused) (hcalm board cause)

theorem Reads.bind (hwork : Reads work) (hnext : ∀ value, Reads (next value)) :
    Reads (work >>= next) := by
  intro board
  have hsame := hwork board
  rw [bind_apply]
  rcases hends : work.on board with ⟨value | cause | slip, later⟩ <;> rw [hends] at hsame
  · obtain rfl : later = board := hsame
    exact hnext value later
  · exact hsame
  · exact hsame

theorem Calm.bind (hwork : Calm work) (hnext : ∀ value, Calm (next value)) :
    Calm (work >>= next) := by
  intro board cause hrefused
  obtain hfirst | ⟨value, middle, -, hsecond⟩ := refused_of_bind (Prod.ext hrefused rfl)
  · exact hwork board cause (congrArg Prod.fst hfirst)
  · exact hnext value middle cause (congrArg Prod.fst hsecond)

/-- What comes after work that changes nothing may be refused as long as it is clean itself. -/
theorem Clean.read_then (hwork : Reads work) (hnext : ∀ value, Clean (next value)) :
    Clean (work >>= next) := by
  intro board cause later hrefused
  obtain hfirst | ⟨value, middle, hdone, hsecond⟩ := refused_of_bind hrefused
  · exact hwork.clean board cause later hfirst
  · have hsame := hwork board
    rw [hdone] at hsame
    obtain rfl : middle = board := hsame
    exact hnext value middle cause later hsecond

/-- What comes after a change must not be refused any more. -/
theorem Clean.then_calm (hwork : Clean work) (hnext : ∀ value, Calm (next value)) :
    Clean (work >>= next) := by
  intro board cause later hrefused
  obtain hfirst | ⟨value, middle, -, hsecond⟩ := refused_of_bind hrefused
  · exact hwork board cause later hfirst
  · exact absurd (congrArg Prod.fst hsecond) (hnext value middle cause)

end Parts

/-! ## Steps -/

theorem reads_look : Reads (look : Work ε Board) := fun _ => rfl

theorem reads_pure (value : α) : Reads (pure value : Work ε α) := fun _ => rfl

theorem reads_allow (condition : Prop) [Decidable condition] (cause : ε) :
    Reads (allow condition cause) := by
  intro board
  unfold allow
  split <;> rfl

theorem reads_demand (condition : Prop) [Decidable condition] (slip : Slip) :
    Reads (demand condition slip : Work ε Unit) := by
  intro board
  unfold demand
  split <;> rfl

theorem reads_entry (found : Option α) : Reads (entry found : Work ε α) := by
  cases found <;> exact fun _ => rfl

theorem calm_look : Calm (look : Work ε Board) := nofun

theorem calm_pure (value : α) : Calm (pure value : Work ε α) := nofun

theorem calm_alter (change : Board → Board) : Calm (alter change : Work ε Unit) := nofun

theorem calm_leap (address : UInt16) : Calm (leap address : Work ε Unit) := calm_alter _

theorem calm_demand (condition : Prop) [Decidable condition] (slip : Slip) :
    Calm (demand condition slip : Work ε Unit) := by
  intro board cause
  unfold demand
  split <;> exact nofun

theorem calm_entry (found : Option α) : Calm (entry found : Work ε α) := by
  cases found <;> exact nofun

theorem calm_sum (first second : UInt16) : Calm (sum first second : Work ε UInt16) :=
  (calm_demand _ _).bind fun _ => calm_pure _

theorem calm_difference (first second : UInt16) :
    Calm (difference first second : Work ε UInt16) :=
  (calm_demand _ _).bind fun _ => calm_pure _

theorem calm_narrow (number : Nat) : Calm (narrow number : Work ε UInt16) :=
  (calm_demand _ _).bind fun _ => calm_pure _

theorem reads_sum (first second : UInt16) : Reads (sum first second : Work ε UInt16) :=
  (reads_demand _ _).bind fun _ => reads_pure _

theorem calm_advance : Calm (advance : Work ε Unit) :=
  calm_look.bind fun _ => (calm_sum _ _).bind fun _ => calm_leap _

theorem calm_retreat : Calm (retreat : Work ε Unit) :=
  calm_look.bind fun _ => (calm_difference _ _).bind fun _ => calm_leap _

theorem clean_push (address : UInt16) : Clean (push address) := by
  refine .read_then reads_look fun board => ?_
  refine .then_calm (reads_allow _ _).clean fun _ => ?_
  exact (calm_demand _ _).bind fun _ => (calm_alter _).bind fun _ => calm_alter _

theorem clean_pop : Clean pop := by
  refine .read_then reads_look fun board => ?_
  refine .then_calm (reads_allow _ _).clean fun _ => ?_
  exact (calm_alter _).bind fun _ => calm_look.bind fun _ => calm_entry _

theorem reads_range (start length : Nat) : Reads (range start length) :=
  (reads_allow _ _).bind fun _ => reads_demand _ _

theorem reads_readRange (start length : Nat) : Reads (readRange start length) :=
  (reads_range _ _).bind fun _ => reads_look.bind fun _ => reads_pure _

theorem clean_writeRange (start : Nat) (bytes : List UInt8) : Clean (writeRange start bytes) :=
  .then_calm (reads_range _ _).clean fun _ => calm_alter _

theorem reads_register (x : Nat) : Reads (register x : Work ε UInt8) :=
  reads_look.bind fun _ => reads_entry _

theorem calm_register (x : Nat) : Calm (register x : Work ε UInt8) :=
  calm_look.bind fun _ => calm_entry _

theorem calm_setRegister (x : Nat) (value : UInt8) : Calm (setRegister x value : Work ε Unit) :=
  (calm_demand _ _).bind fun _ => calm_alter _

theorem reads_registersUpTo (x : Nat) : Reads (registersUpTo x : Work ε (List UInt8)) :=
  (reads_demand _ _).bind fun _ => reads_look.bind fun _ => reads_pure _

theorem calm_loadRegisters (x : Nat) (bytes : List UInt8) :
    Calm (loadRegisters x bytes : Work ε Unit) :=
  (calm_demand _ _).bind fun _ => (calm_demand _ _).bind fun _ => calm_alter _

theorem calm_key (number : Nat) : Calm (key number : Work ε Bool) :=
  calm_look.bind fun _ => calm_entry _

theorem calm_firstPressed (numbers : List Nat) :
    Calm (firstPressed numbers : Work ε (Option Nat)) := by
  induction numbers with
  | nil => exact calm_pure _
  | cons number rest ih =>
    refine (calm_key number).bind fun pressed => ?_
    cases pressed with
    | true => exact calm_pure _
    | false => exact ih

theorem calm_holds (condition : Condition) : Calm (holds condition : Work ε Bool) := by
  cases condition with
  | isByte x nn | isNotByte x nn => exact (calm_register _).bind fun _ => calm_pure _
  | same x y | different x y =>
    exact (calm_register _).bind fun _ => (calm_register _).bind fun _ => calm_pure _
  | keyDown x => exact (calm_register _).bind fun _ => calm_key _
  | keyUp x => exact (calm_register _).bind fun _ => (calm_key _).bind fun _ => calm_pure _

theorem calm_setCombined (x : Nat) (combined : UInt8 × Option UInt8) :
    Calm (setCombined x combined : Work ε Unit) := by
  refine (calm_setRegister _ _).bind fun _ => ?_
  rcases combined with ⟨value, _ | flagValue⟩
  · exact calm_pure _
  · exact calm_setRegister _ _

theorem calm_passBlock (x : Nat) : Calm (passBlock x : Work ε Unit) := by
  refine calm_look.bind fun board => ?_
  cases board.dialect.blockMovesIndex with
  | true =>
    exact (calm_narrow _).bind fun _ => (calm_sum _ _).bind fun _ => calm_alter _
  | false => exact calm_pure _

theorem calm_touch (row column : Nat) : Calm (touch row column : Work ε Bool) := by
  refine calm_look.bind fun _ => (calm_demand _ _).bind fun _ => ?_
  refine (calm_demand _ _).bind fun _ => calm_look.bind fun _ => (calm_entry _).bind fun _ => ?_
  exact (calm_alter _).bind fun _ => calm_pure _

theorem calm_paintBits (edge : Edge) (x row : Nat) (sprite : UInt8) (bits : List Nat) (hit : Bool) :
    Calm (paintBits edge x row sprite bits hit : Work ε Bool) := by
  induction bits generalizing hit with
  | nil => exact calm_pure _
  | cons bit rest ih =>
    refine (calm_demand _ _).bind fun _ => ?_
    split
    · exact ih hit
    · split
      · exact calm_pure _
      · exact (calm_touch _ _).bind fun _ => ih _

theorem calm_paintRows (edge : Edge) (x y : Nat) (sprite : List UInt8) (hit : Bool) :
    Calm (paintRows edge x y sprite hit : Work ε Bool) := by
  induction sprite generalizing y hit with
  | nil => exact calm_pure _
  | cons row rest ih =>
    unfold paintRows
    split
    · exact calm_pure _
    · exact (calm_paintBits _ _ _ _ _ _).bind fun _ => ih _ _

/-! ## Instructions -/

/-- An instruction that is refused leaves the board as it was. -/
theorem carryOut_clean (instruction : Instruction) : Clean (carryOut instruction) := by
  cases instruction with
  | clearScreen | setIndex target => exact (calm_alter _).clean
  | machineCall target => exact (calm_pure _).clean
  | jump target => exact (calm_leap _).clean
  | ret => exact .then_calm clean_pop fun _ => calm_leap _
  | call target =>
    refine .read_then reads_look fun board => ?_
    exact .then_calm (clean_push _) fun _ => calm_leap _
  | skipIf condition =>
    refine ((calm_holds _).bind fun holds => ?_).clean
    cases holds with
    | true => exact calm_advance
    | false => exact calm_pure _
  | setByte x nn => exact (calm_setRegister _ _).clean
  | addByte x nn => exact ((calm_register _).bind fun _ => calm_setRegister _ _).clean
  | combine op x y =>
    refine (calm_look.bind fun _ => (calm_register _).bind fun _ => ?_).clean
    exact (calm_register _).bind fun _ => calm_setCombined _ _
  | jumpOffset base =>
    -- refused after the sum, before the program counter is touched
    refine .read_then reads_look fun board => .read_then (reads_register _) fun offset => ?_
    refine .read_then (reads_sum _ _) fun target => ?_
    exact .then_calm (reads_allow _ _).clean fun _ => calm_leap _
  | random x nn =>
    -- the generator moves before the register is set, but nothing here is ever refused
    exact (calm_look.bind fun _ => (calm_alter _).bind fun _ => calm_setRegister _ _).clean
  | draw x y rows =>
    refine .read_then reads_look fun board => ?_
    refine .then_calm (reads_readRange _ _).clean fun sprite => ?_
    refine calm_look.bind fun _ => (calm_register _).bind fun _ => ?_
    refine (calm_register _).bind fun _ => ?_
    exact (calm_paintRows _ _ _ _ _).bind fun _ => calm_setRegister _ _
  | readDelay x => exact (calm_look.bind fun _ => calm_setRegister _ _).clean
  | waitKey x =>
    refine ((calm_firstPressed _).bind fun found => ?_).clean
    cases found with
    | some number => exact (calm_setRegister _ _).bind fun _ => calm_alter _
    | none => exact calm_retreat.bind fun _ => calm_alter _
  | setDelay x | setSound x | addIndex x =>
    exact ((calm_register _).bind fun _ => calm_alter _).clean
  | pointGlyph x =>
    refine ((calm_register _).bind fun _ => calm_look.bind fun _ => ?_).clean
    exact (calm_narrow _).bind fun _ => calm_alter _
  | storeDecimal x =>
    refine .read_then (reads_register _) fun value => .read_then reads_look fun board => ?_
    exact clean_writeRange _ _
  | storeBlock x =>
    -- the index register is moved only after all bytes have been written
    refine .read_then (reads_registersUpTo _) fun bytes => .read_then reads_look fun board => ?_
    exact .then_calm (clean_writeRange _ _) fun _ => calm_passBlock _
  | loadBlock x =>
    refine .read_then reads_look fun board => ?_
    refine .then_calm (reads_readRange _ _).clean fun bytes => ?_
    exact (calm_loadRegisters _ _).bind fun _ => calm_passBlock _

/-! ## Cycles -/

theorem count_of_done {board later : Board} {answer : Unit}
    (hdone : count.on board = (.done answer, later)) :
    later = { board with cycles := board.cycles + 1 } := by
  by_cases hroom : board.cycles + 1 < 0x10000000000000000
  · rw [count_apply hroom] at hdone
    exact (congrArg Prod.snd hdone).symm
  · unfold count at hdone
    rw [bind_done (look_apply board), bind_slipped (demand_apply_of_not hroom _ _)] at hdone
    cases hdone

theorem advance_of_done {board later : Board} {answer : Unit}
    (hdone : (advance : Work ε Unit).on board = (.done answer, later)) :
    later = { board with pc := board.pc + 2 } := by
  by_cases hroom : board.pc.toNat + 2 < 0x10000
  · rw [advance_apply hroom] at hdone
    exact (congrArg Prod.snd hdone).symm
  · have hslip : ¬ board.pc.toNat + (2 : UInt16).toNat < 0x10000 := hroom
    unfold advance sum at hdone
    rw [bind_done (look_apply board),
      bind_slipped (bind_slipped (demand_apply_of_not hslip _ _))] at hdone
    cases hdone

theorem calm_count : Calm count :=
  calm_look.bind fun _ => (calm_demand _ _).bind fun _ => calm_alter _

/-- A refusal that has been gone on from was a refusal at first. -/
theorem refused_of_attempt {work : Work Fault α} {rescue : Fault → Work Crash α}
    {board later : Board} {cause : Crash}
    (hrefused : (attempt work rescue).on board = (.refused cause, later)) :
    ∃ fault middle, work.on board = (.refused fault, middle) ∧
      (rescue fault).on middle = (.refused cause, later) := by
  rw [attempt_apply] at hrefused
  rcases hwork : work.on board with ⟨value | fault | slip, middle⟩ <;> rw [hwork] at hrefused
  · cases hrefused
  · exact ⟨fault, middle, rfl, hrefused⟩
  · cases hrefused

end Work

/-- The word that the next cycle on a board fetches, if one fits there. -/
def Board.fetched (board : Board) : Option UInt16 :=
  if board.pc.toNat + 2 ≤ memorySize then some (board.memory.word board.pc.toNat) else none

namespace Work

/-- What a crash on a board leaves behind and what it tells. -/
structure Wreck (board later : Board) (word : Option UInt16) (crash : Crash) : Prop where
  later_eq : later = { board with status := .crashed }
  address_eq : crash.address = board.pc
  word_eq : crash.word = word
  dump_eq : crash.dump = later.snapshot

theorem wreck_of_crash {board later : Board} {word : Option UInt16} {fault : Fault} {cause : Crash}
    (hcrash : (crash word fault : Work Crash α).on board = (.refused cause, later)) :
    Wreck board later word cause := by
  rw [crash_apply] at hcrash
  cases hcrash
  exact ⟨rfl, rfl, rfl, rfl⟩

/-- A word whose instruction is refused leaves the board as it was, but for the status: the program
counter, which has moved on, is moved back. -/
theorem perform_refused {board later : Board} {word : UInt16} {cause : Crash}
    (hrefused : (perform word).on board = (.refused cause, later)) :
    Wreck board later (some word) cause := by
  unfold perform decode at hrefused
  cases hdecode : Instruction.decode word with
  | none =>
    rw [hdecode] at hrefused
    obtain hcrash | ⟨_, _, hdone, -⟩ := refused_of_bind hrefused
    · exact wreck_of_crash hcrash
    · rw [crash_apply] at hdone
      cases hdone
  | some instruction =>
    rw [hdecode, bind_done (pure_apply _ _), bind_done (look_apply board)] at hrefused
    obtain hadvance | ⟨_, advanced, hadvance, hrest⟩ := refused_of_bind hrefused
    · exact absurd (congrArg Prod.fst hadvance) (calm_advance _ _)
    have hadvanced := advance_of_done hadvance
    obtain hattempt | ⟨_, _, -, hrest⟩ := refused_of_bind hrest
    · obtain ⟨fault, left, hcarry, hrescue⟩ := refused_of_attempt hattempt
      -- all that differs from the first board is the program counter, and the rescue restores it
      have hleft := carryOut_clean instruction advanced fault left hcarry
      have hback : { left with pc := board.pc } = board := by
        rw [hleft, hadvanced]
      rw [bind_done (leap_apply _ _), hback] at hrescue
      exact wreck_of_crash hrescue
    · cases hrest

/-- A cycle that is refused leaves everything on the board as it was, but for the status and the
number of cycles, wherever in the cycle it was refused. -/
theorem cycle_refused {board later : Board} {cause : Crash} (hlive : board.status ≠ .crashed)
    (hrefused : cycle.on board = (.refused cause, later)) :
    Wreck { board with cycles := board.cycles + 1 } later board.fetched cause := by
  unfold cycle at hrefused
  rw [bind_done (wake_apply hlive)] at hrefused
  obtain hcount | ⟨_, counted, hcount, hrest⟩ := refused_of_bind hrefused
  · exact absurd (congrArg Prod.fst hcount) (calm_count _ _)
  have hcounted := count_of_done hcount
  rw [bind_done (look_apply counted)] at hrest
  have hread := readWord_apply counted.pc.toNat counted
  rw [Memory.readWord_eq] at hread
  have hpc : counted.pc = board.pc := by rw [hcounted]
  have hmemory : counted.memory = board.memory := by rw [hcounted]
  -- the status in which the cycle was counted is lost in the crash
  have hwreck : Wreck counted later board.fetched cause := by
    unfold Board.fetched
    rw [hpc, hmemory] at hread
    rw [hpc] at hrest
    split
    · next hinside =>
      rw [if_pos hinside] at hread
      rw [bind_done (attempt_done hread)] at hrest
      exact perform_refused hrest
    · next houtside =>
      rw [if_neg houtside] at hread
      rw [bind_refused ((attempt_refused hread).trans (crash_apply _ _ _))] at hrest
      cases hrest
      exact ⟨rfl, rfl, rfl, rfl⟩
  refine ⟨hwreck.later_eq.trans ?_, hwreck.address_eq.trans ?_, hwreck.word_eq, hwreck.dump_eq⟩
  · rw [hcounted]
  · rw [hcounted]

end Work
end Chip8
