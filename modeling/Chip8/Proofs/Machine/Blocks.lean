import Chip8.Proofs.InPlace.Agreement
import Chip8.Proofs.Machine.Footprint

/-!
# Blocks of registers in memory

A block is stored from the index register on and loaded from there again.  In a dialect in which the
index register moves behind a block, blocks follow one another like the records of a tape; in the
others they lie where the index register points.

* `Block`, `Block.bytes` — registers up to one of them, and the bytes that they fill.
* `Memory.Overwritten.append` — writing over two ranges in a row is writing over the whole.
* `execute_storeBlock`, `execute_loadBlock` — what the two instructions do if the block lies in
  memory.
* `Machine.storeAll` — blocks are stored one after the other; `storeAll_overwrites` says where.
* `Machine.Finds` — blocks are loaded one after the other, and each is as it should be;
  `finds_of_slice` says when.
* `blocks_stream` — what was stored is found again, block by block.
-/

namespace Chip8

/-- Registers, and the last one of them that belongs to the block. -/
structure Block where
  registers : Registers
  last : Digit

namespace Block

/-- The number of bytes that a block fills. -/
def size (block : Block) : Nat := block.last.val + 1

/-- The number of bytes that blocks in a row fill. -/
def totalSize : List Block → Nat
  | [] => 0
  | block :: rest => block.size + totalSize rest

/-- The values of the registers from the first up to the last of the block. -/
def bytes (block : Block) : List UInt8 :=
  (List.range block.size).map fun place => block.registers.get (.ofNat place)

@[simp] theorem length_bytes (block : Block) : block.bytes.length = block.size := by
  simp [bytes]

theorem length_flatMap_bytes (blocks : List Block) :
    (blocks.flatMap bytes).length = totalSize blocks := by
  induction blocks with
  | nil => rfl
  | cons block rest ih => rw [List.flatMap_cons, List.length_append, length_bytes, ih, totalSize]

/-- The bytes that an instruction moves are told by their places. -/
theorem upTo_eq_of_getElem? {registers : Registers} {x : Digit} {bytes : List UInt8}
    (hlength : bytes.length = x.val + 1)
    (hplaces : ∀ place ≤ x, bytes[place.val]? = some (registers.get place)) :
    registers.upTo x = bytes := by
  refine List.ext_getElem? fun place => ?_
  by_cases hinside : place < x.val + 1
  · let digit : Digit := ⟨place, Nat.lt_of_lt_of_le hinside x.isLt⟩
    have hle : digit ≤ x := Nat.le_of_lt_succ hinside
    exact (registers.getElem?_upTo hle).trans (hplaces digit hle).symm
  · have hbeyond := Nat.le_of_not_lt hinside
    rw [List.getElem?_eq_none (by rwa [Registers.length_upTo]),
      List.getElem?_eq_none (by rwa [hlength])]

theorem getElem?_bytes (block : Block) {place : Digit} (hplace : place ≤ block.last) :
    block.bytes[place.val]? = some (block.registers.get place) := by
  have hinside : place.val < block.size := Nat.lt_succ_of_le hplace
  simp [bytes, hinside]

/-- The bytes of a block are those that an instruction moves. -/
theorem upTo_eq_bytes (registers : Registers) (x : Digit) :
    registers.upTo x = (Block.mk registers x).bytes :=
  upTo_eq_of_getElem? (length_bytes _) fun _ hplace => getElem?_bytes _ hplace

/-- Loading the bytes of a block gives its registers back, and leaves the others alone. -/
theorem get_load_bytes (block : Block) (registers : Registers) (place : Digit) :
    (registers.load block.bytes).get place =
      if place ≤ block.last then block.registers.get place else registers.get place := by
  rw [Registers.get_load]
  by_cases hplace : place ≤ block.last
  · rw [if_pos hplace, block.getElem?_bytes hplace]
    rfl
  · have hbeyond : block.bytes.length ≤ place.val := by
      rw [length_bytes]
      exact Nat.succ_le_of_lt (Nat.lt_of_not_le hplace)
    rw [if_neg hplace, List.getElem?_eq_none hbeyond]
    rfl

/-- A longer block of the same registers begins with the shorter one. -/
theorem bytes_prefix (registers : Registers) {x y : Digit} (hle : y ≤ x) :
    (Block.mk registers y).bytes <+: (Block.mk registers x).bytes := by
  refine List.IsPrefix.map _ ?_
  rw [List.prefix_iff_eq_take, List.length_range, List.take_range]
  exact congrArg List.range (Nat.min_eq_left (Nat.succ_le_succ hle)).symm

/-- The registers that are loaded with the bytes of a whole block hold these bytes. -/
theorem upTo_load (registers : Registers) {bytes : List UInt8} {x : Digit}
    (hlength : bytes.length = x.val + 1) : (registers.load bytes).upTo x = bytes := by
  refine upTo_eq_of_getElem? hlength fun place hplace => ?_
  have hinside : place.val < bytes.length := hlength ▸ Nat.lt_succ_of_le hplace
  rw [Registers.get_load, List.getElem?_eq_getElem hinside]
  rfl

end Block

/-! ## Ranges in a row -/

namespace Memory

theorem slice_add (memory : Memory) (start first second : Nat) :
    memory.slice start (first + second) =
      memory.slice start first ++ memory.slice (start + first) second := by
  simp [slice, List.range_add, Nat.add_assoc]

/-- What has been written over a range is read from it, or as much of it as one reads. -/
theorem Overwritten.slice_eq {before after : Memory} {start : Nat} {bytes front : List UInt8}
    (hwritten : before.Overwritten after start bytes) (hfront : front <+: bytes) :
    after.slice start front.length = front := by
  obtain ⟨behind, rfl⟩ := hfront
  refine List.ext_getElem? fun offset => ?_
  by_cases hoffset : offset < front.length
  · have hinside := hwritten.inside offset (by rw [List.length_append]; omega)
    rw [List.getElem?_append_left hoffset] at hinside
    rw [hinside]
    simp [slice, hoffset]
  · have hbeyond := Nat.le_of_not_lt hoffset
    rw [List.getElem?_eq_none hbeyond, List.getElem?_eq_none (by rwa [length_slice])]

/-- Writing over a range and over the range behind it is writing over both at once. -/
theorem Overwritten.append {before middle after : Memory} {start : Nat} {first second : List UInt8}
    (hfirst : before.Overwritten middle start first)
    (hsecond : middle.Overwritten after (start + first.length) second) :
    before.Overwritten after start (first ++ second) where
  fits := by
    have hfits := hsecond.fits
    rw [List.length_append]
    omega
  inside offset hoffset := by
    rw [List.length_append] at hoffset
    by_cases hinside : offset < first.length
    · -- the second range lies behind, so the first one is as it was written
      rw [List.getElem?_append_left hinside, hfirst.inside offset hinside,
        hsecond.outside _ (by omega)]
    · have hplace : start + offset = start + first.length + (offset - first.length) := by omega
      rw [List.getElem?_append_right (Nat.le_of_not_lt hinside), hplace]
      exact hsecond.inside _ (by omega)
  outside address houtside := by
    rw [List.length_append] at houtside
    rw [hsecond.outside address (by omega), hfirst.outside address (by omega)]

/-- Writing back what has just been read changes nothing. -/
theorem put_slice (memory : Memory) {start length : Nat} (hfits : start + length ≤ memorySize) :
    memory.put start (memory.slice start length) = memory := by
  refine ext_byte fun address => ?_
  rw [byte_put _ _ _ (by rwa [length_slice])]
  by_cases hinside : start ≤ address ∧ address < start + length
  · have hoffset : address - start < length := by omega
    have hplace : start + (address - start) = address := by omega
    simp [slice, hinside.1, hoffset, hplace]
  · split
    · rw [List.getElem?_eq_none (by rw [length_slice]; omega)]
      rfl
    · rfl

end Memory

namespace Machine

/-! ## One block -/

section Block

variable (machine : Machine) {x : Digit}

/-- A block that lies in memory is stored where the index register points. -/
theorem execute_storeBlock (hfits : machine.index.toNat + (x.val + 1) ≤ memorySize) :
    ∃ stored, machine.execute (.storeBlock x) = .ok stored ∧
      stored.memory =
        machine.memory.put machine.index.toNat (Block.mk machine.registers x).bytes ∧
      machine.memory.Overwritten stored.memory machine.index.toNat
        (Block.mk machine.registers x).bytes ∧
      stored.index = machine.indexAfterBlock x ∧ stored.dialect = machine.dialect := by
  rw [← Block.upTo_eq_bytes]
  have hwrite : machine.memory.write machine.index.toNat (machine.registers.upTo x) =
      .ok (machine.memory.put machine.index.toNat (machine.registers.upTo x)) :=
    Memory.write_eq_ok_iff.mpr ⟨by rwa [Registers.length_upTo], rfl⟩
  exact ⟨_, execute_eq_ok_iff.mpr (.storeBlock hwrite), rfl, Memory.overwritten_of_write hwrite,
    rfl, rfl⟩

/-- A block that lies in memory is loaded from where the index register points. -/
theorem execute_loadBlock (hfits : machine.index.toNat + (x.val + 1) ≤ memorySize) :
    ∃ loaded, machine.execute (.loadBlock x) = .ok loaded ∧
      loaded.registers = machine.registers.load
        (machine.memory.slice machine.index.toNat (x.val + 1)) ∧
      loaded.memory = machine.memory ∧ loaded.index = machine.indexAfterBlock x ∧
      loaded.dialect = machine.dialect := by
  have heffect := Effect.loadBlock (Memory.read_eq_ok_iff.mpr ⟨hfits, rfl⟩)
  exact ⟨_, execute_eq_ok_iff.mpr heffect, rfl, rfl, rfl, rfl⟩

end Block

/-! ## Blocks in a row -/

/-- Stores blocks one after the other; the registers are given the values of each block before. -/
def storeAll (machine : Machine) : List Block → Except Fault Machine
  | [] => .ok machine
  | block :: rest => do
      let next ← { machine with registers := block.registers }.execute (.storeBlock block.last)
      next.storeAll rest

/-- Loads blocks one after the other, finds the registers of each block, and leaves the registers
behind the block alone. -/
inductive Finds : Machine → List Block → Machine → Prop
  | nil {machine : Machine} : Finds machine [] machine
  | cons {machine next last : Machine} {block : Block} {rest : List Block} :
      machine.execute (.loadBlock block.last) = .ok next →
      (∀ place ≤ block.last, next.registers.get place = block.registers.get place) →
      (∀ place, block.last < place →
        next.registers.get place = machine.registers.get place) →
      Finds next rest last → Finds machine (block :: rest) last

section Stream

theorem toNat_index_of_moves {machine next : Machine} {block : Block}
    (hmoves : machine.dialect.blockMovesIndex = true)
    (hfits : machine.index.toNat + block.size ≤ memorySize)
    (hnext : next.index = machine.indexAfterBlock block.last) :
    next.index.toNat = machine.index.toNat + block.size := by
  rw [hnext, toNat_indexAfterBlock hfits]
  exact if_pos hmoves

/-- Blocks that lie in memory are stored in a row, and the index register moves behind them. -/
theorem storeAll_overwrites (machine : Machine) {blocks : List Block}
    (hmoves : machine.dialect.blockMovesIndex = true)
    (hfits : machine.index.toNat + Block.totalSize blocks ≤ memorySize) :
    ∃ stored, machine.storeAll blocks = .ok stored ∧
      machine.memory.Overwritten stored.memory machine.index.toNat (blocks.flatMap Block.bytes) ∧
      stored.index.toNat = machine.index.toNat + Block.totalSize blocks ∧
      stored.dialect = machine.dialect := by
  -- the other blocks are stored from where the first one has left the index register
  induction blocks generalizing machine with
  | nil => exact ⟨machine, rfl, ⟨hfits, nofun, fun _ _ => rfl⟩, rfl, rfl⟩
  | cons block rest ih =>
    rw [Block.totalSize] at hfits ⊢
    have hblock : machine.index.toNat + block.size ≤ memorySize := by omega
    obtain ⟨next, hnext, -, hwritten, hbehind, hdialect⟩ :=
      execute_storeBlock { machine with registers := block.registers } hblock
    have hindex : next.index.toNat = machine.index.toNat + block.size :=
      toNat_index_of_moves hmoves hblock hbehind
    obtain ⟨stored, hstored, hrest, hbehind, hsame⟩ :=
      ih next (hdialect ▸ hmoves) (by omega)
    refine ⟨stored, bind_eq_ok_iff.mpr ⟨next, hnext, hstored⟩, ?_, by omega, hsame.trans hdialect⟩
    rw [hindex, ← Block.length_bytes] at hrest
    exact hwritten.append hrest

/-- Blocks that stand in memory in a row are found one after the other. -/
theorem finds_of_slice (machine : Machine) {blocks : List Block}
    (hmoves : machine.dialect.blockMovesIndex = true)
    (hfits : machine.index.toNat + Block.totalSize blocks ≤ memorySize)
    (hslice : machine.memory.slice machine.index.toNat (Block.totalSize blocks) =
      blocks.flatMap Block.bytes) :
    ∃ loaded, Finds machine blocks loaded ∧ loaded.memory = machine.memory ∧
      loaded.index.toNat = machine.index.toNat + Block.totalSize blocks := by
  induction blocks generalizing machine with
  | nil => exact ⟨machine, .nil, rfl, rfl⟩
  | cons block rest ih =>
    rw [Block.totalSize] at hfits hslice ⊢
    -- the bytes of the first block stand in front, and those of the others behind them
    rw [Memory.slice_add, List.flatMap_cons] at hslice
    obtain ⟨hfirst, hbehind⟩ := List.append_inj hslice (by simp)
    have hblock : machine.index.toNat + block.size ≤ memorySize := by omega
    obtain ⟨next, hnext, hregisters, hmemory, hmoved, hdialect⟩ := execute_loadBlock machine hblock
    have hindex := toNat_index_of_moves hmoves hblock hmoved
    have hregisters : next.registers = machine.registers.load block.bytes :=
      hregisters.trans (congrArg machine.registers.load hfirst)
    rw [← hmemory, ← hindex] at hbehind
    obtain ⟨loaded, hloaded, hsame, hlast⟩ :=
      ih next (hdialect ▸ hmoves) (by omega) hbehind
    refine ⟨loaded, .cons hnext (fun place hplace => ?_) (fun place hplace => ?_) hloaded,
      hsame.trans hmemory, by omega⟩
    · rw [hregisters, Block.get_load_bytes, if_pos hplace]
    · rw [hregisters, Block.get_load_bytes, if_neg (Fin.not_le.mpr hplace)]

end Stream

/-! ## Blocks in place -/

section Resting

variable {machine : Machine} {x : Digit} (hrests : machine.dialect.blockMovesIndex = false)

include hrests

theorem indexAfterBlock_of_rests : machine.indexAfterBlock x = machine.index := by
  rw [indexAfterBlock, hrests]
  rfl

/-- A block that is stored is found again by loading it, or as much of it as one likes. -/
theorem loadBlock_of_storeBlock (hfits : machine.index.toNat + (x.val + 1) ≤ memorySize) :
    ∃ stored, machine.execute (.storeBlock x) = .ok stored ∧ stored.index = machine.index ∧
      ∀ (registers : Registers), ∀ y ≤ x, ∃ loaded,
        { stored with registers }.execute (.loadBlock y) = .ok loaded ∧
          loaded.index = machine.index ∧
          (∀ place ≤ y, loaded.registers.get place = machine.registers.get place) ∧
          ∀ place, y < place → loaded.registers.get place = registers.get place := by
  obtain ⟨stored, hstored, -, hwritten, hindex, hdialect⟩ := execute_storeBlock machine hfits
  have hindex : stored.index = machine.index := hindex.trans (indexAfterBlock_of_rests hrests)
  refine ⟨stored, hstored, hindex, fun registers y hy => ?_⟩
  -- what is loaded lies in front of what has been stored
  have hfront := hwritten.slice_eq (Block.bytes_prefix machine.registers hy)
  rw [Block.length_bytes] at hfront
  have hroom : stored.index.toNat + (y.val + 1) ≤ memorySize :=
    hindex ▸ Nat.le_trans (Nat.add_le_add_left (Nat.succ_le_succ hy) _) hfits
  obtain ⟨loaded, hloaded, hregisters, -, hlast, -⟩ :=
    execute_loadBlock { stored with registers } hroom
  have hregisters : loaded.registers = registers.load (Block.mk machine.registers y).bytes := by
    rw [hregisters, hindex]
    exact congrArg registers.load hfront
  refine ⟨loaded, hloaded, ?_, fun place hplace => ?_, fun place hplace => ?_⟩
  · exact hlast.trans ((indexAfterBlock_of_rests (hdialect ▸ hrests)).trans hindex)
  · rw [hregisters, Block.get_load_bytes, if_pos hplace]
  · rw [hregisters, Block.get_load_bytes, if_neg (Fin.not_le.mpr hplace)]

/-- A block that is loaded and stored again leaves memory as it was. -/
theorem storeBlock_of_loadBlock (hfits : machine.index.toNat + (x.val + 1) ≤ memorySize) :
    ∃ loaded stored, machine.execute (.loadBlock x) = .ok loaded ∧
      loaded.index = machine.index ∧ loaded.execute (.storeBlock x) = .ok stored ∧
      stored.index = machine.index ∧ stored.memory = machine.memory := by
  obtain ⟨loaded, hloaded, hregisters, hmemory, hindex, hdialect⟩ := execute_loadBlock machine hfits
  have hindex : loaded.index = machine.index := hindex.trans (indexAfterBlock_of_rests hrests)
  obtain ⟨stored, hstored, hput, -, hlast, -⟩ :=
    execute_storeBlock (x := x) loaded (hindex.symm ▸ hfits)
  refine ⟨loaded, stored, hloaded, hindex, hstored, ?_, ?_⟩
  · exact hlast.trans ((indexAfterBlock_of_rests (hdialect ▸ hrests)).trans hindex)
  · rw [hput, hmemory, hindex, ← Block.upTo_eq_bytes, hregisters,
      Block.upTo_load _ (Memory.length_slice ..), Memory.put_slice _ hfits]

end Resting

/-! ## Both dialects -/

/-- In a dialect in which the index register moves, blocks that lie in memory are stored in a row
and nothing else is new; with the index register back at the first one, the blocks are found one
after the other.  In the other dialects the index register never moves: a block that is stored is
found again, or as much of it as is loaded, and a block that is loaded is stored unchanged.  The
two instructions do the same on a board. -/
theorem blocks_stream :
    (∀ (machine : Machine) (blocks : List Block), machine.dialect.blockMovesIndex = true →
      machine.index.toNat + Block.totalSize blocks ≤ 0x1000 →
      ∃ stored, machine.storeAll blocks = .ok stored ∧
        machine.memory.Overwritten stored.memory machine.index.toNat
          (blocks.flatMap Block.bytes) ∧
        stored.index.toNat = machine.index.toNat + Block.totalSize blocks ∧
        ∀ registers : Registers, ∃ loaded,
          Finds { stored with index := machine.index, registers } blocks loaded ∧
            loaded.memory = stored.memory ∧ loaded.index = stored.index) ∧
      (∀ (machine : Machine) (x : Digit), machine.dialect.blockMovesIndex = false →
        machine.index.toNat + (x.val + 1) ≤ 0x1000 →
        (∃ stored, machine.execute (.storeBlock x) = .ok stored ∧ stored.index = machine.index ∧
          ∀ (registers : Registers), ∀ y ≤ x, ∃ loaded,
            { stored with registers }.execute (.loadBlock y) = .ok loaded ∧
              loaded.index = machine.index ∧
              (∀ place ≤ y, loaded.registers.get place = machine.registers.get place) ∧
              ∀ place, y < place → loaded.registers.get place = registers.get place) ∧
          ∃ loaded stored, machine.execute (.loadBlock x) = .ok loaded ∧
            loaded.index = machine.index ∧ loaded.execute (.storeBlock x) = .ok stored ∧
            stored.index = machine.index ∧ stored.memory = machine.memory) ∧
      ∀ (machine : Machine) (x : Digit),
        (Work.carryOut (.storeBlock x)).on machine.goOn.board =
            Work.carried machine (machine.execute (.storeBlock x)) ∧
          (Work.carryOut (.loadBlock x)).on machine.goOn.board =
            Work.carried machine (machine.execute (.loadBlock x)) := by
  refine ⟨fun machine blocks hmoves hfits => ?_, fun machine x hrests hfits => ?_,
    fun machine x => ⟨Work.carryOut_storeBlock x, Work.carryOut_loadBlock x⟩⟩
  · obtain ⟨stored, hstored, hwritten, hindex, hdialect⟩ := storeAll_overwrites machine hmoves hfits
    refine ⟨stored, hstored, hwritten, hindex, fun registers => ?_⟩
    have hslice := hwritten.slice_eq (List.prefix_refl _)
    rw [Block.length_flatMap_bytes] at hslice
    obtain ⟨loaded, hfinds, hmemory, hlast⟩ := finds_of_slice
      { stored with index := machine.index, registers } (hdialect ▸ hmoves) hfits hslice
    exact ⟨loaded, hfinds, hmemory, UInt16.toNat_inj.mp (hlast.trans hindex.symm)⟩
  · exact ⟨loadBlock_of_storeBlock hrests hfits, storeBlock_of_loadBlock hrests hfits⟩

/-- Two blocks end with memory and are found again; where the index register rests, a part of a
block is found again, and a block is loaded and stored unchanged. -/
theorem blocks_stream_end_of_memory :
    let first : Block := ⟨Registers.zero.set (.ofNat 2) 7, .ofNat 2⟩
    let second : Block := ⟨Registers.zero.set (.ofNat 0) 9, .ofNat 2⟩
    let moving : Machine :=
      { loaded ⟨[]⟩ { dialect := .cosmacVip } (.ofSeed 0) with index := 0xFFA }
    let resting : Machine :=
      { loaded ⟨[]⟩ {} (.ofSeed 0) with index := 0xFFD, registers := first.registers }
    (moving.dialect.blockMovesIndex = true ∧ resting.dialect.blockMovesIndex = false ∧
        moving.index.toNat + Block.totalSize [first, second] = 0x1000 ∧
        resting.index.toNat + ((Digit.ofNat 2).val + 1) = 0x1000) ∧
      (∃ stored, moving.storeAll [first, second] = .ok stored ∧ stored.index.toNat = 0x1000 ∧
        stored.memory.byte 0xFFC = 7 ∧ stored.memory.byte 0xFFD = 9 ∧
        ∃ loaded, Finds { stored with index := moving.index, registers := .zero } [first, second]
          loaded) ∧
      (∃ stored, resting.execute (.storeBlock (.ofNat 2)) = .ok stored ∧
        ∃ loaded,
          { stored with registers := second.registers }.execute (.loadBlock (.ofNat 0)) =
              .ok loaded ∧
            loaded.registers.get (.ofNat 0) = 0) ∧
      ∃ loaded stored, resting.execute (.loadBlock (.ofNat 2)) = .ok loaded ∧
        loaded.execute (.storeBlock (.ofNat 2)) = .ok stored ∧ stored.memory = resting.memory := by
  intro first second moving resting
  have hmoves : moving.dialect.blockMovesIndex = true := rfl
  have hrests : resting.dialect.blockMovesIndex = false := rfl
  have hsum : moving.index.toNat + Block.totalSize [first, second] = 0x1000 := by decide
  have hroom : resting.index.toNat + ((Digit.ofNat 2).val + 1) = 0x1000 := by decide
  obtain ⟨stored, hstored, hwritten, hindex, hfinds⟩ :=
    blocks_stream.1 moving [first, second] hmoves (Nat.le_of_eq hsum)
  obtain ⟨loaded, hloaded, -⟩ := hfinds .zero
  have hbytes : [first, second].flatMap Block.bytes = [0, 0, 7, 9, 0, 0] := by decide
  rw [hbytes] at hwritten
  have hseven := hwritten.inside 2 (by decide)
  have hnine := hwritten.inside 3 (by decide)
  obtain ⟨⟨held, hheld, -, hagain⟩, again, unchanged, hagain', -, hunchanged, -, hsame⟩ :=
    blocks_stream.2.1 resting (.ofNat 2) hrests (Nat.le_of_eq hroom)
  obtain ⟨part, hpart, -, hvalue, -⟩ := hagain second.registers (.ofNat 0) (by decide)
  refine ⟨⟨hmoves, hrests, hsum, hroom⟩, ?_, ?_, ?_⟩
  · exact ⟨stored, hstored, hindex.trans hsum, (Option.some.inj hseven).symm,
      (Option.some.inj hnine).symm, loaded, hloaded⟩
  · refine ⟨held, hheld, part, hpart, ?_⟩
    rw [hvalue (.ofNat 0) (Nat.le_refl _)]
    decide
  · exact ⟨again, unchanged, hagain', hunchanged, hsame⟩

end Machine
end Chip8
