/-!
# Programs

A program is the list of bytes that is placed in memory before a machine starts.

* `Program.ofWords` — the program made of instruction words, the more significant byte first.
* `length_ofWords` — every word takes two bytes.
-/

namespace Chip8

structure Program where
  /-- The bytes in the order in which they lie in memory. -/
  bytes : List UInt8
deriving DecidableEq, Repr

namespace Program

def size (program : Program) : Nat := program.bytes.length

/-- The two bytes of a word, the more significant first. -/
def wordBytes (word : UInt16) : List UInt8 :=
  [(word >>> 8).toUInt8, word.toUInt8]

/-- The program made of instruction words. -/
def ofWords (words : List UInt16) : Program :=
  ⟨words.flatMap wordBytes⟩

theorem length_ofWords (words : List UInt16) : (ofWords words).size = 2 * words.length := by
  simp only [size, ofWords]
  induction words with
  | nil => rfl
  | cons word rest ih => simp [wordBytes, List.flatMap_cons, ih]; omega

end Program
end Chip8
