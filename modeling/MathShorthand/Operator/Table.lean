import MathShorthand.Operator.Basic

/-!
# Tables of operators

Where several operators of a table fit, the one that comes first wins, however long its piece is.
-/

namespace MathShorthand

/-- Operators in the order in which they are tried. -/
structure OperatorTable (R : Type) where
  operators : List (Operator R)
  deriving DecidableEq

namespace OperatorTable

variable {R : Type} [Regex R]

/-- The table of the operators that `patterns` describe, if every one of them is a pattern. -/
def ofPatterns? (patterns : List (String × Kind × Bool)) : Option (OperatorTable R) :=
  (patterns.mapM fun (pattern, kind, breaksNames) =>
    Operator.ofPattern? kind pattern breaksNames).map OperatorTable.mk

/-- The first of `operators` that recognizes the start of `text`, by its kind and piece. -/
def findAmong? (operators : List (Operator R)) (text : List Char) : Option (Kind × List Char) :=
  operators.findSome? fun op => (op.recognize text).map fun piece => (op.kind, piece)

/-- What the first operator to recognize `text` makes of it. -/
def find? (table : OperatorTable R) (text : List Char) : Option (Kind × List Char) :=
  findAmong? table.operators text

/-- What the first operator to recognize `text` and end a name makes of it. -/
def findBreaking? (table : OperatorTable R) (text : List Char) : Option (Kind × List Char) :=
  findAmong? (table.operators.filter (·.breaksNames)) text

theorem find?_ne_nil {table : OperatorTable R} {text piece : List Char} {kind : Kind}
    (found : table.find? text = some (kind, piece)) : piece ≠ [] := by
  obtain ⟨op, -, recognized⟩ := List.exists_of_findSome?_eq_some found
  obtain ⟨piece', h, same⟩ := Option.map_eq_some_iff.1 recognized
  obtain ⟨-, rfl⟩ := Prod.mk.inj same
  simpa using (Option.filter_eq_some_iff.1 h).2

end OperatorTable

end MathShorthand
