import Chip8.Random.Keystream

/-!
# Random bytes

A source of random bytes is a keystream and the number of bytes drawn from it so far, so every byte
is a function of the key and of its place alone.

* `Random.ofSeed` — the source of a seed, with nothing drawn.
* `Random.next` — the next byte, and the source after it.
-/

namespace Chip8

/-- A source of random bytes. -/
structure Random where
  /-- Selects the keystream. -/
  key : Keystream.Key
  /-- How many bytes have been drawn. -/
  drawn : Nat
deriving DecidableEq

namespace Random

/-- The source of a key, with nothing drawn. -/
def ofKey (key : Keystream.Key) : Random := ⟨key, 0⟩

/-- The source of a seed, with nothing drawn. -/
def ofSeed (seed : UInt64) : Random := ofKey (Keystream.Key.ofSeed seed)

def peek (random : Random) : UInt8 := Keystream.byte random.key random.drawn

def advance (random : Random) : Random := ⟨random.key, random.drawn + 1⟩

def next (random : Random) : UInt8 × Random := (random.peek, random.advance)

end Random
end Chip8
