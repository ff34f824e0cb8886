import Chip8.Digit

/-!
# The built-in font

Sixteen glyphs, one for each digit, of five rows each.  A row is a byte whose set bits are the
pixels that are on.

* `Font.bytes` — the glyphs one after the other.
* `Font.offset` — the place of a digit's glyph in the font.
-/

namespace Chip8
namespace Font

/-- The number of rows of a glyph. -/
abbrev glyphSize : Nat := 5

/-- The glyphs of the digits, in order. -/
def bytes : List UInt8 :=
  [0xF0, 0x90, 0x90, 0x90, 0xF0,
   0x20, 0x60, 0x20, 0x20, 0x70,
   0xF0, 0x10, 0xF0, 0x80, 0xF0,
   0xF0, 0x10, 0xF0, 0x10, 0xF0,
   0x90, 0x90, 0xF0, 0x10, 0x10,
   0xF0, 0x80, 0xF0, 0x10, 0xF0,
   0xF0, 0x80, 0xF0, 0x90, 0xF0,
   0xF0, 0x10, 0x20, 0x40, 0x40,
   0xF0, 0x90, 0xF0, 0x90, 0xF0,
   0xF0, 0x90, 0xF0, 0x10, 0xF0,
   0xF0, 0x90, 0xF0, 0x90, 0x90,
   0xE0, 0x90, 0xE0, 0x90, 0xE0,
   0xF0, 0x80, 0x80, 0x80, 0xF0,
   0xE0, 0x90, 0x90, 0x90, 0xE0,
   0xF0, 0x80, 0xF0, 0x80, 0xF0,
   0xF0, 0x80, 0xF0, 0x80, 0x80]

/-- The place of a digit's glyph, counted from the start of the font. -/
def offset (digit : Digit) : Nat :=
  glyphSize * digit.val

def glyph (digit : Digit) : List UInt8 :=
  (bytes.drop (offset digit)).take glyphSize

theorem length_bytes : bytes.length = 80 := rfl

/-- The whole glyph of a digit lies inside the font. -/
theorem offset_add_glyphSize_le (digit : Digit) : offset digit + glyphSize ≤ bytes.length := by
  have hdigit := digit.isLt
  simp only [offset, length_bytes, glyphSize]
  omega

end Font
end Chip8
