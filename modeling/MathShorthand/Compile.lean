import MathShorthand.Expr.Latex
import MathShorthand.Operator.Standard
import MathShorthand.Parser.Sequence
import MathShorthand.Token.Stream

/-!
# From shorthand to LaTeX

`compile?` reads the expressions of a text one after another and writes each as LaTeX before it
reads the next. The first error of either kind is the outcome of the whole text.
-/

namespace MathShorthand

variable {R : Type} [Regex R]

/-- The expressions of a text. None is a panic of the tokens. -/
def parse? (table : OperatorTable R) (text : String) : Option (Except ParseError (List Expr)) :=
  (tokenize? table text).map Expr.readAll

/-- Why a text has no LaTeX. -/
inductive CompileError where
  | parse (cause : ParseError)
  | latex (cause : LatexError)
  deriving DecidableEq

def CompileError.message : CompileError → String
  | parse cause => cause.message
  | latex cause => cause.message

/-- The LaTeX of the expressions that the tokens spell, one after another without a gap. -/
def compileTokens : List Token → Except CompileError String
  | [] => .ok ""
  | token :: tokens =>
    match found : Expr.read 0 (token :: tokens) with
    | ⟨.error e, _⟩ => .error (.parse e)
    | ⟨.ok e, rest⟩ =>
      have := Expr.length_lt_of_readWithin found
      match e.latex with
      | .error e => .error (.latex e)
      | .ok first =>
        match compileTokens rest with
        | .error e => .error e
        | .ok others => .ok (first ++ others)
termination_by tokens => tokens.length
decreasing_by assumption

/-- The LaTeX of a text. None is a panic of the tokens. -/
def compile? (table : OperatorTable R) (text : String) : Option (Except CompileError String) :=
  (tokenize? table text).map compileTokens

end MathShorthand
