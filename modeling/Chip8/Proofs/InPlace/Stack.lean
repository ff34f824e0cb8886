import Chip8.Proofs.Machine.Boot
import Chip8.Proofs.InPlace.Moves

/-!
# The call stack as a list with room for sixteen addresses

Pushes and pops are made in place, one after the other, and a refused one is followed by the next
all the same.  Through the entries in use they are what a list does that holds at most sixteen
addresses, whatever is left in the entries that are not in use.

* `CallStack.Move` — a push or a pop; `Move.work` carries it out in place.
* `Move.ending`, `Move.next` — how a move ends on a list, and the list afterwards.
* `Board.StackLaws` — what a push and a pop do to a board, through the list and to each entry.
* `Board.PushesTo`, `Board.StaysAbove` — where some moves push, and that they stay above a depth.
* `exists_moved`, `exists_moved_all` — one move, and any number of them, in place and on the list.
* `entries_moved` — an entry changes only if it is pushed to.
* `stack_is_bounded_list` — the call stack is a bounded list, and what lies below the depth from
  which some moves start stays as long as they do not go below it.
-/

namespace Chip8

/-- What can be asked of a call stack. -/
inductive CallStack.Move where
  | push (address : UInt16)
  | pop
deriving DecidableEq, Repr

namespace CallStack.Move

/-- A move carried out in place; only a pop gives an address back. -/
def work : Move → Work Fault (Option UInt16)
  | push address => do
      Work.push address
      return none
  | pop => do
      return some (← Work.pop)

/-- How a move ends on a list with room for sixteen addresses. -/
def ending (held : List UInt16) : Move → Ending Fault (Option UInt16)
  | push _ => if held.length < stackSize then .done none else .refused .stackFull
  | pop =>
      match held.getLast? with
      | some address => .done (some address)
      | none => .refused .stackEmpty

/-- The list after a move. -/
def next (held : List UInt16) : Move → List UInt16
  | push address => if held.length < stackSize then held ++ [address] else held
  | pop => held.dropLast

/-- How some moves end on a list, one after the other. -/
def endings (held : List UInt16) : List Move → List (Ending Fault (Option UInt16))
  | [] => []
  | move :: rest => move.ending held :: endings (move.next held) rest

end CallStack.Move

open CallStack (Move)

namespace Board

/-- The board after some moves, refused ones among them. -/
def moved (board : Board) : List Move → Board
  | [] => board
  | move :: rest => (move.work.on board).2.moved rest

/-- How some moves end on a board, one after the other. -/
def endings (board : Board) : List Move → List (Ending Fault (Option UInt16))
  | [] => []
  | move :: rest => (move.work.on board).1 :: (move.work.on board).2.endings rest

/-- One of some moves asks for a push while the stack is as deep as a place. -/
def PushesTo (board : Board) (moves : List Move) (place : Nat) : Prop :=
  ∃ earlier address, moves[earlier]? = some (.push address) ∧
    (board.moved (moves.take earlier)).stack.depth = place

/-- Some moves never make the stack less deep than it is at first. -/
def StaysAbove (board : Board) (moves : List Move) : Prop :=
  ∀ earlier ≤ moves.length, board.stack.depth ≤ (board.moved (moves.take earlier)).stack.depth

/-- What a push and a pop do to a board, through the entries in use and to each single entry. -/
structure StackLaws (board : Board) : Prop where
  depth_eq : board.stack.depth = board.stack.held.length
  depth_le : board.stack.depth ≤ stackSize
  /-- A push with room appends, and writes to the first entry that is not in use. -/
  push_done : ∀ address, board.stack.held.length < stackSize →
    ∃ stack, board.stack.push address = .ok stack ∧
      (Work.push address).on board = (.done (), { board with stack }) ∧
      stack.held = board.stack.held ++ [address] ∧
      ∀ place ≠ board.stack.depth, stack.entries[place]? = board.stack.entries[place]?
  /-- A push without room changes nothing. -/
  push_refused : ∀ address, board.stack.held.length = stackSize →
    board.stack.push address = .error .stackFull ∧
      (Work.push address).on board = (.refused .stackFull, board)
  /-- A pop takes the last address away, and no entry changes. -/
  pop_done : ∀ below address, board.stack.held = below ++ [address] →
    ∃ stack, board.stack.pop = .ok (address, stack) ∧
      Work.pop.on board = (.done address, { board with stack }) ∧
      stack.held = below ∧ stack.entries = board.stack.entries
  /-- A pop where nothing is held changes nothing. -/
  pop_refused : board.stack.held = [] →
    board.stack.pop = .error .stackEmpty ∧ Work.pop.on board = (.refused .stackEmpty, board)

/-! ## One move -/

section Move

variable {board : Board}

theorem stackLaws (hdepth : board.stack.pointer ≤ stackSize) : board.StackLaws := by
  have hlength : board.stack.held.length = board.stack.pointer := CallStack.length_held hdepth
  refine ⟨hlength.symm, hdepth, ?push_done, ?push_refused, ?pop_done, ?pop_refused⟩
  case push_done =>
    intro address hroom
    have hpush : board.stack.push address = .ok ⟨_, _⟩ := if_pos (hlength ▸ hroom)
    refine ⟨_, hpush, ?_, CallStack.held_push hpush, fun place hplace => ?_⟩
    · rw [Work.push_apply, hpush]
      rfl
    · exact (CallStack.entry_of_push hpush place).trans (if_neg hplace)
  case push_refused =>
    intro address hfull
    have hnone : ¬ board.stack.pointer < stackSize := by omega
    have hpush : board.stack.push address = .error .stackFull := if_neg hnone
    refine ⟨hpush, ?_⟩
    rw [Work.push_apply, hpush]
    rfl
  case pop_done =>
    intro below address hlast
    have hused : board.stack.pointer ≠ 0 := by
      rw [← hlength, hlast]
      simp
    have hpop : board.stack.pop = .ok (_, ⟨_, _⟩) := if_neg hused
    have happended := (CallStack.held_pop hdepth hpop).symm.trans hlast
    obtain ⟨hbelow, haddress⟩ := List.append_inj' happended rfl
    rw [List.singleton_inj.mp haddress] at hpop
    refine ⟨_, hpop, ?_, hbelow, CallStack.entries_of_pop hpop⟩
    rw [Work.pop_apply hdepth, hpop]
    rfl
  case pop_refused =>
    intro hnone
    rw [hnone] at hlength
    have hpop : board.stack.pop = .error .stackEmpty := if_pos hlength.symm
    refine ⟨hpop, ?_⟩
    rw [Work.pop_apply hdepth, hpop]
    rfl

/-- A move on a board ends as it does on the list of the entries in use, and leaves what the list
becomes; an entry changes only if it is pushed to. -/
theorem exists_moved (hdepth : board.stack.pointer ≤ stackSize) (move : Move) :
    ∃ stack, move.work.on board = (move.ending board.stack.held, { board with stack }) ∧
      stack.held = move.next board.stack.held ∧ stack.pointer ≤ stackSize ∧
      ∀ place, (∀ address, move = .push address → board.stack.depth ≠ place) →
        stack.entries[place]? = board.stack.entries[place]? := by
  have hlaws := stackLaws hdepth
  have hheld := hlaws.depth_eq ▸ hlaws.depth_le
  cases move with
  | push address =>
    rcases Nat.lt_or_eq_of_le hheld with hroom | hfull
    · obtain ⟨stack, hpush, hwork, hnext, hentries⟩ := hlaws.push_done address hroom
      obtain ⟨hbelow, hpointer⟩ := CallStack.pointer_of_push hpush
      refine ⟨stack, ?_, ?_, ?_, fun place hplace => hentries place (hplace address rfl).symm⟩
      · rw [Move.work, Work.bind_done hwork, Move.ending, if_pos hroom]
        rfl
      · rw [Move.next, if_pos hroom, hnext]
      · rw [hpointer]
        exact hbelow
    · obtain ⟨-, hwork⟩ := hlaws.push_refused address hfull
      have hnone : ¬ board.stack.held.length < stackSize := by omega
      refine ⟨board.stack, ?_, ?_, hdepth, fun _ _ => rfl⟩
      · rw [Move.work, Work.bind_refused hwork, Move.ending, if_neg hnone]
      · rw [Move.next, if_neg hnone]
  | pop =>
    rcases List.eq_nil_or_concat board.stack.held with hnone | ⟨below, address, hlast⟩
    · obtain ⟨-, hwork⟩ := hlaws.pop_refused hnone
      refine ⟨board.stack, ?_, ?_, hdepth, fun _ _ => rfl⟩
      · rw [Move.work, Work.bind_refused hwork, hnone]
        rfl
      · rw [hnone]
        rfl
    · rw [List.concat_eq_append] at hlast
      obtain ⟨stack, hpop, hwork, hnext, hentries⟩ := hlaws.pop_done below address hlast
      have hpointer := CallStack.pointer_of_pop hpop
      refine ⟨stack, ?_, ?_, by omega, fun _ _ => by rw [hentries]⟩
      · rw [Move.work, Work.bind_done hwork, hlast, Move.ending, List.getLast?_concat]
        rfl
      · rw [hlast, Move.next, List.dropLast_concat, hnext]

end Move

/-! ## Any number of moves -/

/-- Moves on a board end as they do on the list of the entries in use, and leave what the list
becomes and the rest of the board as it was. -/
theorem exists_moved_all {board : Board} (hdepth : board.stack.pointer ≤ stackSize)
    (moves : List Move) :
    ∃ stack, board.moved moves = { board with stack } ∧
      board.endings moves = Move.endings board.stack.held moves ∧
      stack.held = moves.foldl Move.next board.stack.held ∧ stack.pointer ≤ stackSize := by
  induction moves generalizing board with
  | nil => exact ⟨board.stack, rfl, rfl, rfl, hdepth⟩
  | cons move rest ih =>
    obtain ⟨middle, hwork, hnext, hinside, -⟩ := exists_moved hdepth move
    obtain ⟨stack, hmoved, hendings, hheld, hpointer⟩ := @ih { board with stack := middle } hinside
    refine ⟨stack, ?_, ?_, ?_, hpointer⟩
    · rw [moved, hwork, hmoved]
    · rw [endings, hwork, hendings, hnext, Move.endings]
    · rw [hheld, hnext, List.foldl_cons]

/-- An entry to which none of some moves pushes keeps its value. -/
theorem entries_moved {board : Board} (hdepth : board.stack.pointer ≤ stackSize) {moves : List Move}
    {place : Nat} (hplace : ¬ board.PushesTo moves place) :
    (board.moved moves).stack.entries[place]? = board.stack.entries[place]? := by
  induction moves generalizing board with
  | nil => rfl
  | cons move rest ih =>
    obtain ⟨middle, hwork, -, hinside, hentries⟩ := exists_moved hdepth move
    have hfirst := hentries place fun address hpush hhere =>
      hplace ⟨0, address, congrArg some hpush, hhere⟩
    -- the other moves start from the board that the first one leaves
    have hrest : ¬ (move.work.on board).2.PushesTo rest place := by
      rintro ⟨earlier, address, hpush, hhere⟩
      exact hplace ⟨earlier + 1, address, hpush, hhere⟩
    rw [hwork] at hrest
    rw [moved, hwork, ih hinside hrest]
    exact hfirst

/-- Moves that stay above the depth from which they start push to no entry below it. -/
theorem StaysAbove.not_pushesTo {board : Board} {moves : List Move}
    (habove : board.StaysAbove moves) {place : Nat} (hplace : place < board.stack.depth) :
    ¬ board.PushesTo moves place := by
  rintro ⟨earlier, address, hpush, rfl⟩
  have hlength : earlier < moves.length := (List.getElem?_eq_some_iff.mp hpush).1
  exact absurd hplace (Nat.not_lt_of_le (habove earlier (Nat.le_of_lt hlength)))

end Board

/-- Entries that are the same below one depth are in use as the same list. -/
theorem CallStack.held_eq_of_entries {stack other : CallStack} (hdepth : stack.depth = other.depth)
    (hentries : ∀ place < other.depth, stack.entries[place]? = other.entries[place]?) :
    stack.held = other.held := by
  have hpointer : stack.pointer = other.pointer := hdepth
  refine List.ext_getElem? fun place => ?_
  rw [held, held, List.getElem?_take, List.getElem?_take, hpointer, Vector.getElem?_toList,
    Vector.getElem?_toList]
  by_cases hplace : place < other.pointer
  · rw [if_pos hplace, if_pos hplace, hentries place hplace]
  · rw [if_neg hplace, if_neg hplace]

/-- The call stack is a list with room for sixteen addresses, whatever its other entries hold.  Any
moves end as on that list and leave what it becomes; they change nothing else, and no entry to which
none of them pushes.  As long as they do not go below the depth from which they start, the entries
below it stay; back at that depth the same list is held, so that a pop gives what it gave before. -/
theorem stack_is_bounded_list {board : Board} (hdepth : board.stack.pointer ≤ stackSize)
    (moves : List Move) :
    let later := board.moved moves
    later.StackLaws ∧ later = { board with stack := later.stack } ∧
      board.endings moves = Move.endings board.stack.held moves ∧
      later.stack.held = moves.foldl Move.next board.stack.held ∧
      (∀ place, ¬ board.PushesTo moves place →
        later.stack.entries[place]? = board.stack.entries[place]?) ∧
      (board.StaysAbove moves →
        (∀ place < board.stack.depth,
          later.stack.entries[place]? = board.stack.entries[place]?) ∧
        (later.stack.depth = board.stack.depth →
          later.stack.held = board.stack.held ∧
            ∀ below address, board.stack.held = below ++ [address] →
              ∃ stack, Work.pop.on later = (.done address, { later with stack }) ∧
                stack.held = below)) := by
  intro later
  obtain ⟨stack, hmoved, hendings, hheld, hpointer⟩ := Board.exists_moved_all hdepth moves
  have hlater : later = { board with stack } := hmoved
  have hlaws : later.StackLaws := Board.stackLaws (by rw [hlater]; exact hpointer)
  refine ⟨hlaws, by rw [hlater], hendings, by rw [hlater]; exact hheld,
    fun _ hplace => Board.entries_moved hdepth hplace, fun habove => ?_⟩
  have hbelow : ∀ place < board.stack.depth,
      later.stack.entries[place]? = board.stack.entries[place]? :=
    fun _ hplace => Board.entries_moved hdepth (habove.not_pushesTo hplace)
  refine ⟨hbelow, fun hback => ?_⟩
  have hsame := CallStack.held_eq_of_entries hback hbelow
  refine ⟨hsame, fun below address hlast => ?_⟩
  obtain ⟨stack, -, hwork, hnext, -⟩ := hlaws.pop_done below address (hsame.trans hlast)
  exact ⟨stack, hwork, hnext⟩

/-- With one entry left: the second of two pushes is refused, a pop gives the first one back, and
what was the last address before is so again. -/
theorem stack_is_bounded_list_one_left :
    let board : Board :=
      { (Machine.loaded ⟨[]⟩ {} (.ofSeed 0)).board with stack := ⟨Vector.replicate 16 7, 15⟩ }
    let moves : List Move := [.push 1, .push 2, .pop]
    let later := board.moved moves
    board.stack.pointer ≤ stackSize ∧ board.StaysAbove moves ∧ ¬ board.PushesTo moves 3 ∧
      later.stack.depth = board.stack.depth ∧
      board.endings moves = [.done none, .refused .stackFull, .done (some 1)] ∧
      later.stack.entries[3]? = some 7 ∧ later.stack.entries[14]? = some 7 ∧
      ∃ stack, Work.pop.on later = (.done 7, { later with stack }) ∧
        stack.held = List.replicate 14 7 := by
  intro board moves later
  have hdepth : board.stack.pointer ≤ stackSize := by decide
  have habove : board.StaysAbove moves := by
    have hstages : ∀ earlier ≤ 3,
        board.stack.depth ≤ (board.moved (moves.take earlier)).stack.depth := by decide +kernel
    exact hstages
  have hother : ¬ board.PushesTo moves 3 := habove.not_pushesTo (by decide)
  have hback : later.stack.depth = board.stack.depth := by decide +kernel
  obtain ⟨-, -, hendings, -, hentries, hkept⟩ := stack_is_bounded_list hdepth moves
  obtain ⟨hbelow, hheld⟩ := hkept habove
  refine ⟨hdepth, habove, hother, hback, hendings, hentries 3 hother, hbelow 14 (by decide), ?_⟩
  exact (hheld hback).2 (List.replicate 14 7) 7 rfl

end Chip8
