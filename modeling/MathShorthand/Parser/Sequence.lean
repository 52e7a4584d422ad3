import MathShorthand.Parser.Progress

/-!
# Expressions back to back

A whole sequence of tokens is read as one expression after another. The first error ends it.
-/

namespace MathShorthand.Expr

/-- The expression at the front of `tokens`, and the tokens after it. -/
def read (rank : Nat) (tokens : List Token) : Outcome Expr := readWithin maxDepth rank tokens

/-- The expressions that the tokens spell back to back. -/
def readAll : List Token → Except ParseError (List Expr)
  | [] => .ok []
  | token :: tokens =>
    match found : read 0 (token :: tokens) with
    | ⟨.error e, _⟩ => .error e
    | ⟨.ok e, rest⟩ =>
      have := length_lt_of_readWithin found
      match readAll rest with
      | .error e => .error e
      | .ok es => .ok (e :: es)
termination_by tokens => tokens.length
decreasing_by assumption

end MathShorthand.Expr
