/-!
# Ranges of characters

A property of characters is kept as the list of the ranges that have it, both ends included.
-/

namespace MathShorthand.Text

/-- Some range holds the code point `n`. -/
def inRanges (ranges : List (Nat × Nat)) (n : Nat) : Bool :=
  ranges.any fun range => range.1 ≤ n && n ≤ range.2

end MathShorthand.Text
