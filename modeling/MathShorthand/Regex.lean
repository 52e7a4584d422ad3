/-!
# Regular expressions

What is used of regular expressions: to read one that is written, and to search a text for what it
describes. All that reads pieces of a text goes through with any regular expressions.
-/

namespace MathShorthand

/-- Regular expressions of the type `R`. -/
class Regex (R : Type) where
  /-- The expression that a text is the written form of. None if the text is not well formed. -/
  read? : List Char → Option R
  /-- The piece of a text that is found, wherever it stands. -/
  find? : R → List Char → Option (List Char)

end MathShorthand
