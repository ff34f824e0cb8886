import Chip8.Proofs.InPlace.Moves
import Chip8.Proofs.Machine.Blocks

/-!
# Memory by words

A span of memory is named by two 64-bit words, its start and its length.  Its end is found by a sum
that stops at the largest word, which is far beyond memory, so that nothing is lost.

* `saturatingSum` — the sum that stops; `toNat_saturatingSum` says where.
* `Work.readSpan`, `Work.readTwo`, `Work.writeSpan` — the accesses, every index and length checked.
* `readSpan_apply`, `readTwo_apply`, `writeSpan_apply` — they are the accesses by exact numbers.
* `Memory.getElem?_slice_put`, `Memory.put_put`, `Memory.put_comm` — reading after writing, writing
  twice, and writing in two places.
* `Board.Access` — the laws of access; `access_laws` says that every board obeys them.
-/

namespace Chip8

/-! ## Sums that stop -/

/-- The sum of two words, or the largest word in place of a larger sum. -/
def saturatingSum (first second : UInt64) : UInt64 :=
  if first ≤ first + second then first + second else 0xFFFFFFFFFFFFFFFF

theorem toNat_saturatingSum (first second : UInt64) :
    (saturatingSum first second).toNat =
      min (first.toNat + second.toNat) 0xFFFFFFFFFFFFFFFF := by
  have hfirst := first.toNat_lt
  have hsecond := second.toNat_lt
  have hsum : (first + second).toNat = (first.toNat + second.toNat) % 0x10000000000000000 :=
    UInt64.toNat_add first second
  unfold saturatingSum
  -- the sum of the words is smaller than the first exactly if it has gone round
  split
  · next hexact =>
    rw [UInt64.le_iff_toNat_le, hsum] at hexact
    rw [hsum]
    omega
  · next hround =>
    rw [UInt64.le_iff_toNat_le, hsum] at hround
    show 0xFFFFFFFFFFFFFFFF = _
    omega

/-- Compared with the end of memory, the sum that stops is as good as the exact one. -/
theorem saturatingSum_le_iff (start length : UInt64) :
    (saturatingSum start length ≤ 0x1000 ∧ start ≤ 0x1000) ↔
      start.toNat + length.toNat ≤ memorySize := by
  rw [UInt64.le_iff_toNat_le, UInt64.le_iff_toNat_le, toNat_saturatingSum]
  show (_ ≤ 4096 ∧ _ ≤ 4096) ↔ _ ≤ 4096
  omega

/-- Inside memory the sum is exact. -/
theorem toNat_saturatingSum_of_le {start length : UInt64}
    (hfits : start.toNat + length.toNat ≤ memorySize) :
    (saturatingSum start length).toNat = start.toNat + length.toNat := by
  have hfits : start.toNat + length.toNat ≤ 4096 := hfits
  rw [toNat_saturatingSum]
  omega

/-! ## Bytes in memory -/

namespace Memory

/-- The cells between two places are the bytes that the view shows there. -/
theorem drop_take_cells (memory : Memory) {start length : Nat} (hfits : start + length ≤ memorySize) :
    (memory.cells.toList.take (start + length)).drop start = memory.slice start length := by
  refine List.ext_getElem? fun offset => ?_
  by_cases hoffset : offset < length
  · have hinside : start + offset < memorySize := by omega
    rw [List.getElem?_drop, List.getElem?_take_of_lt (Nat.add_lt_add_left hoffset start)]
    simp [slice, byte, hoffset, hinside]
  · rw [List.getElem?_eq_none (by rw [List.length_drop, List.length_take]; omega),
      List.getElem?_eq_none (by rw [length_slice]; omega)]

section Put

variable (memory : Memory) {start : Nat} {bytes : List UInt8}
  (hfits : start + bytes.length ≤ memorySize)

include hfits

/-- The byte of an address that has been written over. -/
theorem some_byte_put {address : Nat} (hinside : start ≤ address ∧ address < start + bytes.length) :
    some ((memory.put start bytes).byte address) = bytes[address - start]? := by
  have hoffset : address - start < bytes.length := by omega
  rw [Memory.byte_put_inside hfits memory hoffset, Nat.add_sub_of_le hinside.1]

/-- What has been written over an address does not depend on what was there. -/
theorem byte_put_eq (other : Memory) {address : Nat}
    (hinside : start ≤ address ∧ address < start + bytes.length) :
    (memory.put start bytes).byte address = (other.put start bytes).byte address :=
  Option.some.inj
    ((some_byte_put memory hfits hinside).trans (some_byte_put other hfits hinside).symm)

/-- What is read after writing: inside what has been written, and outside what was there. -/
theorem getElem?_slice_put {first length offset : Nat} (hoffset : offset < length) :
    ((memory.put start bytes).slice first length)[offset]? =
      if start ≤ first + offset ∧ first + offset < start + bytes.length then
        bytes[first + offset - start]?
      else (memory.slice first length)[offset]? := by
  have hread : ∀ other : Memory,
      (other.slice first length)[offset]? = some (other.byte (first + offset)) := fun other => by
    simp [slice, hoffset]
  rw [hread, hread]
  split
  · next hinside => exact some_byte_put memory hfits hinside
  · next houtside => rw [Memory.byte_put_outside hfits houtside]

/-- Of two writings over one range the second one stands. -/
theorem put_put {values : List UInt8} (hlength : values.length = bytes.length) :
    (memory.put start bytes).put start values = memory.put start values := by
  have hagain : start + values.length ≤ memorySize := hlength ▸ hfits
  refine ext_byte fun address => ?_
  by_cases hinside : start ≤ address ∧ address < start + values.length
  · exact byte_put_eq _ hagain _ hinside
  · rw [Memory.byte_put_outside hagain hinside, Memory.byte_put_outside hagain hinside,
      Memory.byte_put_outside hfits (hlength ▸ hinside)]

/-- Writings over ranges without a common address can be exchanged. -/
theorem put_comm {other : Nat} {values : List UInt8}
    (hother : other + values.length ≤ memorySize)
    (hapart : ∀ address, ¬ ((start ≤ address ∧ address < start + bytes.length) ∧
      other ≤ address ∧ address < other + values.length)) :
    (memory.put start bytes).put other values = (memory.put other values).put start bytes := by
  refine ext_byte fun address => ?_
  by_cases hfirst : start ≤ address ∧ address < start + bytes.length
  · have hsecond : ¬ (other ≤ address ∧ address < other + values.length) := fun h =>
      hapart address ⟨hfirst, h⟩
    rw [Memory.byte_put_outside hother hsecond]
    exact byte_put_eq _ hfits _ hfirst
  · rw [Memory.byte_put_outside hfits hfirst]
    by_cases hsecond : other ≤ address ∧ address < other + values.length
    · exact byte_put_eq _ hother _ hsecond
    · rw [Memory.byte_put_outside hother hsecond, Memory.byte_put_outside hother hsecond,
        Memory.byte_put_outside hfits hfirst]

end Put
end Memory

/-! ## Accesses -/

namespace Work

/-- Finds the end of a span; a span beyond memory is refused. -/
def spanEnd (start length : UInt64) : Work Fault UInt64 := do
  let stop := saturatingSum start length
  allow (stop ≤ 0x1000 ∧ start ≤ 0x1000) (.addressOutOfBounds (max start.toNat memorySize))
  return stop

def readSpan (start length : UInt64) : Work Fault (List UInt8) := do
  let stop ← spanEnd start length
  demand (start.toNat ≤ stop.toNat ∧ stop.toNat ≤ memorySize) .outOfRange
  return ((← look).memory.cells.toList.take stop.toNat).drop start.toNat

/-- Reads a word, the more significant byte first. -/
def readTwo (start : UInt64) : Work Fault UInt16 := do
  let bytes ← readSpan start 2
  let high ← entry bytes[0]?
  let low ← entry bytes[1]?
  return UInt16.ofNat (256 * high.toNat + low.toNat)

def writeSpan (start : UInt64) (bytes : List UInt8) : Work Fault Unit := do
  let stop ← spanEnd start (.ofNat bytes.length)
  demand (start.toNat ≤ stop.toNat ∧ stop.toNat ≤ memorySize) .outOfRange
  demand (stop.toNat - start.toNat = bytes.length) .lengthMismatch
  alter fun board => { board with memory := board.memory.put start.toNat bytes }

theorem spanEnd_apply (start length : UInt64) (board : Board) :
    (spanEnd start length).on board =
      if start.toNat + length.toNat ≤ memorySize then
        (.done (saturatingSum start length), board)
      else (.refused (.addressOutOfBounds (max start.toNat memorySize)), board) := by
  unfold spanEnd
  by_cases hfits : start.toNat + length.toNat ≤ memorySize
  · rw [if_pos hfits, bind_done (allow_apply ((saturatingSum_le_iff start length).mpr hfits) _ _)]
    rfl
  · have hbeyond := fun h => hfits ((saturatingSum_le_iff start length).mp h)
    rw [if_neg hfits, bind_refused (allow_apply_of_not hbeyond _ _)]

/-- Reading a span is reading the range of the exact numbers. -/
theorem readSpan_apply (start length : UInt64) (board : Board) :
    (readSpan start length).on board =
      ofExcept (board.memory.read start.toNat length.toNat) board := by
  have hend := spanEnd_apply start length board
  unfold readSpan
  rw [Memory.read_eq]
  by_cases hfits : start.toNat + length.toNat ≤ memorySize
  · have hstop := toNat_saturatingSum_of_le hfits
    have hinside : start.toNat ≤ (saturatingSum start length).toNat ∧
        (saturatingSum start length).toNat ≤ memorySize := by
      rw [hstop]
      exact ⟨Nat.le_add_right _ _, hfits⟩
    rw [if_pos hfits] at hend ⊢
    rw [bind_done hend, bind_done (demand_apply hinside _ _), bind_done (look_apply _), hstop,
      Memory.drop_take_cells board.memory hfits]
    rfl
  · rw [if_neg hfits] at hend ⊢
    exact bind_refused hend

/-- Reading two bytes at a word is reading them at the exact number. -/
theorem readTwo_apply (start : UInt64) (board : Board) :
    (readTwo start).on board = ofExcept (board.memory.readWord start.toNat) board := by
  rw [← readWord_apply start.toNat board]
  unfold readTwo readWord
  rw [bind_goBy (readSpan_apply start 2 board), bind_goBy (readRange_apply start.toNat 2 board)]
  rfl

/-- Writing over a span is writing over the range of the exact numbers. -/
theorem writeSpan_apply (start : UInt64) {bytes : List UInt8}
    (hlength : bytes.length < 0x10000000000000000) (board : Board) :
    (writeSpan start bytes).on board =
      goBy (board.memory.write start.toNat bytes) (fun _ => ()) (fun memory => { board with memory })
        board := by
  have hword : (UInt64.ofNat bytes.length).toNat = bytes.length := UInt64.toNat_ofNat_of_lt' hlength
  have hend := spanEnd_apply start (.ofNat bytes.length) board
  unfold writeSpan
  rw [Memory.write_eq]
  rw [hword] at hend
  by_cases hfits : start.toNat + bytes.length ≤ memorySize
  · have hstop : (saturatingSum start (.ofNat bytes.length)).toNat =
        start.toNat + bytes.length := by
      rw [toNat_saturatingSum_of_le (by rwa [hword]), hword]
    have hinside : start.toNat ≤ (saturatingSum start (.ofNat bytes.length)).toNat ∧
        (saturatingSum start (.ofNat bytes.length)).toNat ≤ memorySize := by
      rw [hstop]
      exact ⟨Nat.le_add_right _ _, hfits⟩
    have hmatch : (saturatingSum start (.ofNat bytes.length)).toNat - start.toNat =
        bytes.length := by
      rw [hstop, Nat.add_sub_cancel_left]
    rw [if_pos hfits] at hend ⊢
    rw [bind_done hend, bind_done (demand_apply hinside _ _), bind_done (demand_apply hmatch _ _)]
    rfl
  · rw [if_neg hfits] at hend ⊢
    exact bind_refused hend

end Work

/-! ## The laws -/

open Work

/-- The laws of access to the memory of a board, for spans of all words. -/
structure Board.Access (board : Board) : Prop where
  /-- A span is read exactly if it ends in memory, and reading leaves the board alone. -/
  read_done : ∀ start length : UInt64, start.toNat + length.toNat ≤ 0x1000 →
    (readSpan start length).on board =
      (.done (board.memory.slice start.toNat length.toNat), board)
  read_refused : ∀ start length : UInt64, 0x1000 < start.toNat + length.toNat →
    (readSpan start length).on board =
      (.refused (.addressOutOfBounds (max start.toNat 0x1000)), board)
  /-- A span is written over exactly if it ends in memory, and otherwise nothing is written. -/
  write_done : ∀ (start : UInt64) (bytes : List UInt8), start.toNat + bytes.length ≤ 0x1000 →
    (writeSpan start bytes).on board =
      (.done (), { board with memory := board.memory.put start.toNat bytes })
  write_refused : ∀ (start : UInt64) (bytes : List UInt8), bytes.length < 0x10000000000000000 →
    0x1000 < start.toNat + bytes.length →
    (writeSpan start bytes).on board =
      (.refused (.addressOutOfBounds (max start.toNat 0x1000)), board)
  /-- Two bytes are read as a word exactly if the second one lies in memory. -/
  readTwo_done : ∀ start : UInt64, start.toNat ≤ 4094 →
    ∃ word, (readTwo start).on board = (.done word, board) ∧
      word.toNat = 256 * (board.memory.byte start.toNat).toNat +
        (board.memory.byte (start.toNat + 1)).toNat
  readTwo_refused : ∀ start : UInt64, 4094 < start.toNat →
    (readTwo start).on board = (.refused (.addressOutOfBounds (max start.toNat 0x1000)), board)
  /-- After writing, what has been written is read inside, and what was there outside. -/
  read_after_write : ∀ (start : UInt64) (bytes : List UInt8) (later : Board),
    bytes.length < 0x10000000000000000 → (writeSpan start bytes).on board = (.done (), later) →
    ∀ (first length : UInt64) (before : List UInt8),
      (readSpan first length).on board = (.done before, board) →
      ∃ after, (readSpan first length).on later = (.done after, later) ∧
        after.length = length.toNat ∧
        ∀ offset < length.toNat, after[offset]? =
          let address := first.toNat + offset
          if start.toNat ≤ address ∧ address < start.toNat + bytes.length then
            bytes[address - start.toNat]?
          else before[offset]?
  write_back : ∀ (start length : UInt64) (found : List UInt8),
    (readSpan start length).on board = (.done found, board) →
    (writeSpan start found).on board = (.done (), board)
  write_again : ∀ (start : UInt64) (bytes values : List UInt8),
    bytes.length < 0x10000000000000000 → values.length = bytes.length →
    (writeSpan start bytes >>= fun _ => writeSpan start values).on board =
      (writeSpan start values).on board
  write_apart : ∀ (first second : UInt64) (bytes values : List UInt8),
    first.toNat + bytes.length ≤ 0x1000 → second.toNat + values.length ≤ 0x1000 →
    (∀ address, ¬ ((first.toNat ≤ address ∧ address < first.toNat + bytes.length) ∧
      second.toNat ≤ address ∧ address < second.toNat + values.length)) →
    ∃ later, (writeSpan first bytes >>= fun _ => writeSpan second values).on board =
        (.done (), later) ∧
      (writeSpan second values >>= fun _ => writeSpan first bytes).on board = (.done (), later)

section Laws

variable (board : Board)

theorem readSpan_done {start length : UInt64} (hfits : start.toNat + length.toNat ≤ memorySize) :
    (readSpan start length).on board =
      (.done (board.memory.slice start.toNat length.toNat), board) := by
  rw [readSpan_apply, Memory.read_eq, if_pos hfits]
  rfl

theorem readSpan_refused {start length : UInt64}
    (hbeyond : ¬ start.toNat + length.toNat ≤ memorySize) :
    (readSpan start length).on board =
      (.refused (.addressOutOfBounds (max start.toNat memorySize)), board) := by
  rw [readSpan_apply, Memory.read_eq, if_neg hbeyond]
  rfl

theorem writeSpan_done {start : UInt64} {bytes : List UInt8}
    (hfits : start.toNat + bytes.length ≤ memorySize) :
    (writeSpan start bytes).on board =
      (.done (), { board with memory := board.memory.put start.toNat bytes }) := by
  have hfits' : start.toNat + bytes.length ≤ 4096 := hfits
  rw [writeSpan_apply start (by omega), Memory.write_eq, if_pos hfits]
  rfl

theorem writeSpan_refused {start : UInt64} {bytes : List UInt8}
    (hlength : bytes.length < 0x10000000000000000)
    (hbeyond : ¬ start.toNat + bytes.length ≤ memorySize) :
    (writeSpan start bytes).on board =
      (.refused (.addressOutOfBounds (max start.toNat memorySize)), board) := by
  rw [writeSpan_apply start hlength, Memory.write_eq, if_neg hbeyond]
  rfl

theorem readSpan_eq_done_iff {start length : UInt64} {found : List UInt8} {later : Board} :
    (readSpan start length).on board = (.done found, later) ↔
      start.toNat + length.toNat ≤ memorySize ∧
        board.memory.slice start.toNat length.toNat = found ∧ board = later := by
  by_cases hfits : start.toNat + length.toNat ≤ memorySize
  · rw [readSpan_done board hfits, Prod.mk.injEq, Ending.done.injEq]
    exact (and_iff_right hfits).symm
  · rw [readSpan_refused board hfits, Prod.mk.injEq]
    exact ⟨fun h => (nomatch h.1), fun h => absurd h.1 hfits⟩

theorem writeSpan_eq_done_iff {start : UInt64} {bytes : List UInt8} {later : Board}
    (hlength : bytes.length < 0x10000000000000000) :
    (writeSpan start bytes).on board = (.done (), later) ↔
      start.toNat + bytes.length ≤ memorySize ∧
        { board with memory := board.memory.put start.toNat bytes } = later := by
  by_cases hfits : start.toNat + bytes.length ≤ memorySize
  · rw [writeSpan_done board hfits, Prod.mk.injEq]
    exact ⟨fun h => ⟨hfits, h.2⟩, fun h => ⟨rfl, h.2⟩⟩
  · rw [writeSpan_refused board hlength hfits, Prod.mk.injEq]
    exact ⟨fun h => (nomatch h.1), fun h => absurd h.1 hfits⟩

theorem readTwo_done {start : UInt64} (hstart : start.toNat + 2 ≤ memorySize) :
    (readTwo start).on board = (.done (board.memory.word start.toNat), board) := by
  rw [readTwo_apply, Memory.readWord_eq, if_pos hstart]
  rfl

theorem readTwo_refused {start : UInt64} (hstart : ¬ start.toNat + 2 ≤ memorySize) :
    (readTwo start).on board =
      (.refused (.addressOutOfBounds (max start.toNat memorySize)), board) := by
  rw [readTwo_apply, Memory.readWord_eq, if_neg hstart]
  rfl

/-- Reading any span after writing one. -/
theorem read_after_write {start first length : UInt64} {bytes before : List UInt8} {later : Board}
    (hlength : bytes.length < 0x10000000000000000)
    (hwrite : (writeSpan start bytes).on board = (.done (), later))
    (hread : (readSpan first length).on board = (.done before, board)) :
    ∃ after, (readSpan first length).on later = (.done after, later) ∧
      after.length = length.toNat ∧
      ∀ offset < length.toNat, after[offset]? =
        if start.toNat ≤ first.toNat + offset ∧
            first.toNat + offset < start.toNat + bytes.length then
          bytes[first.toNat + offset - start.toNat]?
        else before[offset]? := by
  obtain ⟨hfits, rfl⟩ := (writeSpan_eq_done_iff board hlength).mp hwrite
  obtain ⟨hinside, rfl, -⟩ := (readSpan_eq_done_iff board).mp hread
  exact ⟨_, readSpan_done _ hinside, Memory.length_slice ..,
    fun _ hoffset => Memory.getElem?_slice_put board.memory hfits hoffset⟩

/-- Writing back what has just been read. -/
theorem write_back {start length : UInt64} {found : List UInt8}
    (hread : (readSpan start length).on board = (.done found, board)) :
    (writeSpan start found).on board = (.done (), board) := by
  obtain ⟨hfits, rfl, -⟩ := (readSpan_eq_done_iff board).mp hread
  rw [writeSpan_done board (by rwa [Memory.length_slice]), Memory.put_slice board.memory hfits]

/-- Writing two lists of one length over one span, be it in memory or not. -/
theorem write_again {start : UInt64} {bytes values : List UInt8}
    (hbytes : bytes.length < 0x10000000000000000) (hlength : values.length = bytes.length) :
    (writeSpan start bytes >>= fun _ => writeSpan start values).on board =
      (writeSpan start values).on board := by
  by_cases hfits : start.toNat + bytes.length ≤ memorySize
  · have hagain : start.toNat + values.length ≤ memorySize := hlength ▸ hfits
    rw [bind_done (writeSpan_done board hfits), writeSpan_done _ hagain, writeSpan_done _ hagain,
      Memory.put_put board.memory hfits hlength]
  · rw [bind_refused (writeSpan_refused board hbytes hfits),
      writeSpan_refused board (hlength ▸ hbytes) (hlength ▸ hfits)]

/-- Writing over two spans without a common address, in either order. -/
theorem write_apart {first second : UInt64} {bytes values : List UInt8}
    (hfirst : first.toNat + bytes.length ≤ memorySize)
    (hsecond : second.toNat + values.length ≤ memorySize)
    (hapart : ∀ address, ¬ ((first.toNat ≤ address ∧ address < first.toNat + bytes.length) ∧
      second.toNat ≤ address ∧ address < second.toNat + values.length)) :
    ∃ later, (writeSpan first bytes >>= fun _ => writeSpan second values).on board =
        (.done (), later) ∧
      (writeSpan second values >>= fun _ => writeSpan first bytes).on board =
        (.done (), later) := by
  refine ⟨_, (bind_done (writeSpan_done board hfirst)).trans (writeSpan_done _ hsecond), ?_⟩
  rw [bind_done (writeSpan_done board hsecond), writeSpan_done _ hfirst,
    Memory.put_comm board.memory hfirst hsecond hapart]

end Laws

/-- Every board obeys the laws of access, and access by words is access by the exact numbers that
they hold, as the instructions have it. -/
theorem memory_access_laws (board : Board) :
    board.Access ∧
      (∀ start length : UInt64, (readSpan start length).on board =
        ofExcept (board.memory.read start.toNat length.toNat) board) ∧
      (∀ start : UInt64,
        (readTwo start).on board = ofExcept (board.memory.readWord start.toNat) board) ∧
      ∀ (start : UInt64) (bytes : List UInt8), bytes.length < 0x10000000000000000 →
        (writeSpan start bytes).on board =
          goBy (board.memory.write start.toNat bytes) (fun _ => ())
            (fun memory => { board with memory }) board := by
  refine ⟨?_, fun start length => readSpan_apply start length board,
    fun start => readTwo_apply start board,
    fun start _ hlength => writeSpan_apply start hlength board⟩
  exact {
    read_done := fun _ _ hfits => readSpan_done board hfits
    read_refused := fun _ _ hbeyond => readSpan_refused board (Nat.not_le_of_lt hbeyond)
    write_done := fun _ _ hfits => writeSpan_done board hfits
    write_refused := fun _ _ hlength hbeyond =>
      writeSpan_refused board hlength (Nat.not_le_of_lt hbeyond)
    readTwo_done := fun _ hstart =>
      ⟨_, readTwo_done board (Nat.add_le_add_right hstart 2), Memory.toNat_word ..⟩
    readTwo_refused := fun _ hstart =>
      readTwo_refused board (Nat.not_le_of_lt (Nat.add_lt_add_right hstart 2))
    read_after_write := fun _ _ _ hlength hwrite _ _ _ hread =>
      read_after_write board hlength hwrite hread
    write_back := fun _ _ _ hread => write_back board hread
    write_again := fun _ _ _ hbytes hlength => write_again board hbytes hlength
    write_apart := fun _ _ _ _ hfirst hsecond hapart => write_apart board hfirst hsecond hapart }

/-- At the end of memory: an empty span is read there, a span whose end goes round is refused, and of
two bytes that end with memory the second one is read again beside what lies before. -/
theorem memory_access_laws_at_end :
    let board := (Machine.loaded ⟨[]⟩ {} (.ofSeed 0)).board
    (readSpan 0x1000 0).on board = (.done [], board) ∧
      (readSpan 0xFFFFFFFFFFFFFFFF 2).on board =
        (.refused (.addressOutOfBounds 0xFFFFFFFFFFFFFFFF), board) ∧
      (writeSpan 0xFFF [1, 2]).on board = (.refused (.addressOutOfBounds 0x1000), board) ∧
      (writeSpan 0xFFE [1, 2]).on board =
        (.done (), { board with memory := board.memory.put 0xFFE [1, 2] }) ∧
      ∃ after, (readSpan 0xFFD 3).on { board with memory := board.memory.put 0xFFE [1, 2] } =
          (.done after, { board with memory := board.memory.put 0xFFE [1, 2] }) ∧
        after.length = 3 ∧ after[2]? = some 2 := by
  intro board
  obtain ⟨hlaws, -⟩ := memory_access_laws board
  have hwritten := hlaws.write_done 0xFFE [1, 2] (by decide)
  obtain ⟨after, hafter, hlength, hbytes⟩ := hlaws.read_after_write 0xFFE [1, 2] _ (by decide)
    hwritten 0xFFD 3 _ (hlaws.read_done 0xFFD 3 (by decide))
  exact ⟨hlaws.read_done 0x1000 0 (by decide), hlaws.read_refused _ 2 (by decide),
    hlaws.write_refused 0xFFF [1, 2] (by decide) (by decide), hwritten, after, hafter, hlength,
    hbytes 2 (by decide)⟩

end Chip8
