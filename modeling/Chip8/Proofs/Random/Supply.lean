import Chip8.Random.Supply

/-!
# A supply follows its source

A source of random bytes finds every byte from its place alone; a supply keeps what is left of a
block.  Both give the same bytes in the same order.

* `next_supply` — one byte from the supply of a source is the next byte of the source, and leaves
  the supply of the source after it.
* `Supply.skip`, `skip_ofKey` — so after any number of bytes the supply of a key is that of the
  source which has drawn as many.
* `next_skip` — the byte behind some others is the one at that place of the keystream.
-/

namespace Chip8

namespace Random

/-- The block of the next byte is the latest one, and the byte's word stands first in what is left
of it. -/
theorem ready_supply (random : Random) :
    random.supply.ready = ⟨random.key, .ofNat (random.drawn / 16 + 1),
      (Keystream.block random.key (.ofNat (random.drawn / 16))).words.drop
        (random.drawn % 16)⟩ := by
  obtain ⟨key, count⟩ := random
  have hlength := Keystream.length_words (Keystream.block key (.ofNat (count / 16)))
  by_cases hfirst : count % 16 = 0
  · -- the block before is used up, or there is none
    have hnumber : (count + 15) / 16 = count / 16 := by omega
    have hleft : (Random.mk key count).supply.left = [] := if_pos hfirst
    rw [Supply.ready, if_pos hleft, Supply.refill, supply, hnumber, hfirst, List.drop_zero,
      UInt64.ofNat_add]
    rfl
  · have hnumber : (count + 15) / 16 = count / 16 + 1 := by omega
    have hleft : (Random.mk key count).supply.left =
        (Keystream.block key (.ofNat (count / 16))).words.drop (count % 16) := if_neg hfirst
    have hsome : (Random.mk key count).supply.left ≠ [] := by
      rw [hleft, ne_eq, List.drop_eq_nil_iff, hlength]
      omega
    rw [Supply.ready, if_neg hsome, ← hleft, supply, hnumber]

theorem left_advance (random : Random) :
    random.advance.left = (Keystream.block random.key (.ofNat (random.drawn / 16))).words.drop
      (random.drawn % 16 + 1) := by
  obtain ⟨key, count⟩ := random
  have hlength := Keystream.length_words (Keystream.block key (.ofNat (count / 16)))
  show (if (count + 1) % 16 = 0 then []
    else (Keystream.block key (.ofNat ((count + 1) / 16))).words.drop ((count + 1) % 16)) =
      (Keystream.block key (.ofNat (count / 16))).words.drop (count % 16 + 1)
  split
  · next hlast =>
    have hall : count % 16 + 1 = 16 := by omega
    rw [hall, List.drop_of_length_le (Nat.le_of_eq hlength)]
  · next hmore =>
    have hblock : (count + 1) / 16 = count / 16 := by omega
    have hplace : (count + 1) % 16 = count % 16 + 1 := by omega
    rw [hblock, hplace]

/-- The supply of a source hands out the byte that the source gives next, and is the supply of the
source after it. -/
theorem next_supply (random : Random) :
    random.supply.next = (random.peek, random.advance.supply) := by
  have hnumber : (random.drawn + 1 + 15) / 16 = random.drawn / 16 + 1 := by omega
  rw [Supply.next, ready_supply, supply, left_advance, peek, Keystream.byte, advance, hnumber,
    List.tail_drop, List.headD_eq_head?_getD, List.head?_drop]

/-- With nothing drawn, no block has been computed. -/
theorem supply_ofKey (key : Keystream.Key) : (ofKey key).supply = .ofKey key := by
  simp [supply, left, ofKey, Supply.ofKey]

end Random

namespace Supply

/-- The supply after a number of bytes. -/
def skip (supply : Supply) : Nat → Supply
  | 0 => supply
  | count + 1 => (supply.skip count).next.2

theorem skip_ofKey (key : Keystream.Key) (count : Nat) :
    (ofKey key).skip count = (Random.mk key count).supply := by
  induction count with
  | zero => exact (Random.supply_ofKey key).symm
  | succ count ih =>
    rw [skip, ih, Random.next_supply]
    rfl

/-- The byte behind some others is the low byte of the word at its place of the keystream. -/
theorem next_skip (key : Keystream.Key) (count : Nat) :
    ((ofKey key).skip count).next.1 = Keystream.byte key count := by
  rw [skip_ofKey, Random.next_supply]
  rfl

end Supply
end Chip8
