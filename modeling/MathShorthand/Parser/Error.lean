import MathShorthand.Text.Quoted
import MathShorthand.Token.Basic

/-!
# Errors of the parser

Why a sequence of tokens stands for no expression, and what is said about it.
-/

namespace MathShorthand

/-- The number of levels that an expression may nest. -/
def maxDepth : Nat := 256

/-- Why no expression could be read. -/
inductive ParseError where
  /-- An expression had to start, and `found` starts none. -/
  | unexpected (found : Token)
  /-- A token of kind `wanted` had to come, and `found` came. -/
  | expected (wanted : Kind) (found : Token)
  /-- The expression nests deeper than `maxDepth` levels. -/
  | tooDeep
  deriving DecidableEq

def Token.describe (t : Token) : String :=
  t.kind.label ++ " token " ++ Text.quote t.text

def ParseError.message : ParseError → String
  | unexpected found => "could not parse " ++ found.describe
  | expected wanted found => "expected " ++ wanted.label ++ " token, got " ++ found.describe
  | tooDeep => "expression nested deeper than " ++ toString maxDepth ++ " levels"

end MathShorthand
