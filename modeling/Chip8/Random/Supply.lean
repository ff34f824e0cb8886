import Chip8.Random

/-!
# Handing out a keystream

A supply hands out the words of a keystream in order.  It computes a block at a time, keeps the
words that are left of it, and computes the next block when a word is asked for and none is left.

* `Supply.next` — the low byte of the next word, and the supply after it.
* `Random.supply` — the supply that stands where a source of random bytes stands.
-/

namespace Chip8

/-- A keystream of which a part has been handed out. -/
structure Supply where
  key : Keystream.Key
  /-- The number of the block that is computed next. -/
  number : UInt64
  /-- The words of the latest block that have not been handed out. -/
  left : List UInt32
deriving DecidableEq, Repr

namespace Supply

/-- The supply of a key, with no block computed. -/
def ofKey (key : Keystream.Key) : Supply := ⟨key, 0, []⟩

/-- Computes the next block. -/
def refill (supply : Supply) : Supply where
  key := supply.key
  number := supply.number + 1
  left := (Keystream.block supply.key supply.number).words

/-- The supply with a word to hand out. -/
def ready (supply : Supply) : Supply :=
  if supply.left = [] then supply.refill else supply

/-- The low byte of the next word, and the supply after it. -/
def next (supply : Supply) : UInt8 × Supply :=
  ((supply.ready.left.headD 0).toUInt8,
    { supply.ready with left := supply.ready.left.tail })

end Supply

namespace Random

/-- What is left of the latest block after the bytes that have been drawn. -/
def left (random : Random) : List UInt32 :=
  if random.drawn % 16 = 0 then []
  else (Keystream.block random.key (.ofNat (random.drawn / 16))).words.drop (random.drawn % 16)

/-- The supply from which as many bytes have been handed out as have been drawn. -/
def supply (random : Random) : Supply where
  key := random.key
  number := .ofNat ((random.drawn + 15) / 16)
  left := random.left

end Random
end Chip8
