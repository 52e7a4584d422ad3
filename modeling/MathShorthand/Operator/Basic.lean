import MathShorthand.Pattern.Literal
import MathShorthand.Regex
import MathShorthand.Token.Basic

/-!
# Operators

An operator is a way to write a kind of token. A symbol is written in one way only and ends a
name before it. A keyword may be written in either case, and is no keyword inside a name.
-/

namespace MathShorthand

/-- A way to write tokens of one kind. -/
structure Operator (R : Type) where
  kind : Kind
  /-- A name ends where the operator starts. -/
  breaksNames : Bool
  pattern : R
  deriving DecidableEq

namespace Operator

variable {R : Type} [Regex R]

/-- The operator whose pattern is written `^(?:pattern)`. None if that is no pattern. The text of
`pattern` is set in as it is, so it is the whole that has to be well formed. -/
def ofPattern? (kind : Kind) (pattern : String) (breaksNames : Bool) : Option (Operator R) :=
  (Regex.read? ("^(?:".toList ++ pattern.toList ++ [')'])).map fun p => ⟨kind, breaksNames, p⟩

/-- The operator written as `word` in any mixture of cases. -/
def keyword? (kind : Kind) (word : String) : Option (Operator R) :=
  ofPattern? kind (String.ofList ("(?i-u:".toList ++ Pattern.escape word.toList ++ [')'])) false

/-- The operator written exactly as `text`. -/
def symbol? (kind : Kind) (text : String) : Option (Operator R) :=
  ofPattern? kind (String.ofList (Pattern.escape text.toList)) true

/-- The piece of `text` that the operator takes for its own. An empty piece is none. -/
def recognize (op : Operator R) (text : List Char) : Option (List Char) :=
  (Regex.find? op.pattern text).filter fun piece => !piece.isEmpty

end Operator

end MathShorthand
