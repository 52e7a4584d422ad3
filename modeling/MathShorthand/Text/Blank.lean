import MathShorthand.Text.CharRange

/-!
# Blanks

The characters that only part words, by the property `White_Space` of Unicode. There are
twenty-five of them, six in ASCII.
-/

namespace MathShorthand.Text

def blanks : List (Nat × Nat) :=
  [(0x9, 0xd), (0x20, 0x20), (0x85, 0x85), (0xa0, 0xa0), (0x1680, 0x1680), (0x2000, 0x200a),
   (0x2028, 0x2029), (0x202f, 0x202f), (0x205f, 0x205f), (0x3000, 0x3000)]

/-- A character that only parts words. -/
def isBlank (c : Char) : Bool := inRanges blanks c.toNat

end MathShorthand.Text
