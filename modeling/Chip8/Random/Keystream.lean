/-!
# The keystream behind random bytes

A keystream is an endless row of 32-bit words, cut into blocks of sixteen.  A block is the ChaCha
function with twelve rounds of the key and the block's number, so any block is found without those
before it.

* `Keystream.Key.ofSeed` — the key of a seed: eight scrambled states of a linear generator.
* `Keystream.block` — the words of one block, laid out in four rows of four.
* `Keystream.byte` — the low byte of a word of the stream.
-/

namespace Chip8
namespace Keystream

def rotateLeft (word amount : UInt32) : UInt32 :=
  (word <<< amount) ||| (word >>> (32 - amount))

/-! ## Rows -/

/-- Four words that are worked on side by side. -/
structure Row where
  first : UInt32
  second : UInt32
  third : UInt32
  fourth : UInt32
deriving DecidableEq, Repr

namespace Row

/-- Joins two rows column by column. -/
def zip (f : UInt32 → UInt32 → UInt32) (a b : Row) : Row :=
  ⟨f a.first b.first, f a.second b.second, f a.third b.third, f a.fourth b.fourth⟩

def add (a b : Row) : Row := zip (· + ·) a b

/-- Joins a row into another by exclusive or and turns the words left. -/
def blend (amount : UInt32) (a b : Row) : Row :=
  zip (fun x y => rotateLeft (x ^^^ y) amount) a b

/-- Moves every word one column to the left; the first word comes last. -/
def shift (row : Row) : Row := ⟨row.second, row.third, row.fourth, row.first⟩

def toList (row : Row) : List UInt32 := [row.first, row.second, row.third, row.fourth]

end Row

/-! ## Keys -/

/-- The eight words that select a keystream, as two rows. -/
structure Key where
  upper : Row
  lower : Row
deriving DecidableEq, Repr

/-- One step of the linear generator that stretches a seed. -/
def stretch (state : UInt64) : UInt64 :=
  state * 6364136223846793005 + 11634580027462260723

/-- The key word of a generator state: its folded high bits, turned right by its topmost five. -/
def scramble (state : UInt64) : UInt32 :=
  let folded := (((state >>> 18) ^^^ state) >>> 27).toUInt32
  let amount := (state >>> 59).toUInt32
  (folded >>> amount) ||| (folded <<< (32 - amount))

/-- The key word of a seed at a place: what the generator gives after one step more. -/
def seedWord (seed : UInt64) (place : Nat) : UInt32 :=
  scramble (Nat.repeat stretch (place + 1) seed)

def Key.ofSeed (seed : UInt64) : Key :=
  ⟨⟨seedWord seed 0, seedWord seed 1, seedWord seed 2, seedWord seed 3⟩,
   ⟨seedWord seed 4, seedWord seed 5, seedWord seed 6, seedWord seed 7⟩⟩

/-! ## Blocks -/

/-- The sixteen words of a block. -/
structure Block where
  a : Row
  b : Row
  c : Row
  d : Row
deriving DecidableEq, Repr

namespace Block

def words (block : Block) : List UInt32 :=
  block.a.toList ++ block.b.toList ++ block.c.toList ++ block.d.toList

def add (x y : Block) : Block :=
  ⟨x.a.add y.a, x.b.add y.b, x.c.add y.c, x.d.add y.d⟩

/-- Stirs the four words of every column into each other. -/
def stir (block : Block) : Block :=
  let a := block.a.add block.b
  let d := block.d.blend 16 a
  let c := block.c.add d
  let b := block.b.blend 12 c
  let a := a.add b
  let d := d.blend 8 a
  let c := c.add d
  ⟨a, b.blend 7 c, c, d⟩

/-- Moves the rows so that the diagonals become columns. -/
def slant (block : Block) : Block :=
  ⟨block.a, block.b.shift, block.c.shift.shift, block.d.shift.shift.shift⟩

/-- Moves the rows so that columns become diagonals again. -/
def unslant (block : Block) : Block :=
  ⟨block.a, block.b.shift.shift.shift, block.c.shift.shift, block.d.shift⟩

/-- Stirs the columns and then the diagonals. -/
def doubleRound (block : Block) : Block :=
  block.stir.slant.stir.unslant

end Block

/-- The block before stirring: four constant words, the key, the block number in two words with the
low one first, and two zeros. -/
def start (key : Key) (number : UInt64) : Block where
  a := ⟨0x61707865, 0x3320646E, 0x79622D32, 0x6B206574⟩
  b := key.upper
  c := key.lower
  d := ⟨number.toUInt32, (number >>> 32).toUInt32, 0, 0⟩

/-- A block: twelve rounds of stirring, added to the block before stirring. -/
def block (key : Key) (number : UInt64) : Block :=
  (start key number).add (Nat.repeat Block.doubleRound 6 (start key number))

/-- The low byte of the word at a place of the keystream. -/
def byte (key : Key) (place : Nat) : UInt8 :=
  ((block key (UInt64.ofNat (place / 16))).words[place % 16]?.getD 0).toUInt8

theorem length_words (block : Block) : block.words.length = 16 := rfl

end Keystream
end Chip8
