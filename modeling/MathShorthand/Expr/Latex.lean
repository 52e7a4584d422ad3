import MathShorthand.Expr.Basic

/-!
# LaTeX

`Expr.latex` writes a formula as LaTeX. It fails exactly where an operator stands in a position
for which it has no symbol.
-/

namespace MathShorthand

/-- Where an operator stands among its operands. -/
inductive Position where
  | before | between | after | overBounds
  deriving DecidableEq

def Position.label : Position → String
  | before => "prefix"
  | between => "infix"
  | after => "postfix"
  | overBounds => "bounded"

/-- A formula that cannot be written. -/
inductive LatexError where
  /-- The operator `op` has no symbol for where it stands. -/
  | noSymbol (op : Kind) (position : Position)
  deriving DecidableEq

def LatexError.message : LatexError → String
  | noSymbol op position => "no " ++ position.label ++ " symbol for " ++ op.label

/-- Text in braces, which LaTeX takes as one argument. -/
def braced (text : String) : String := "\x7b" ++ text ++ "\x7d"

namespace Kind

def infixSymbol? : Kind → Option String
  | plus => some "+"
  | minus => some "-"
  | times | looseTimes => some "\\cdot"
  | equal => some "="
  | geq => some "\\geq"
  | leq => some "\\leq"
  | neq => some "\\neq"
  | approx => some "\\approx"
  | upTo => some "\\to"
  | _ => none

def boundedSymbol? : Kind → Option String
  | integral => some "\\int"
  | sum => some "\\sum"
  | product => some "\\prod"
  | _ => none

/-- An operator before the finished text of its operand. -/
def latexBefore (op : Kind) (operand : String) : Except LatexError String :=
  match op with
  | escape => .ok ("\\" ++ operand)
  | sub => .ok ("_" ++ braced operand)
  | super => .ok ("^" ++ braced operand)
  | plus => .ok ("+" ++ operand)
  | minus => .ok ("-" ++ operand)
  | _ => .error (.noSymbol op .before)

/-- An operator after the finished text of its operand. -/
def latexAfter (op : Kind) (operand : String) : Except LatexError String :=
  match op with
  | hat => .ok ("\\hat" ++ braced operand)
  | vector => .ok ("\\vec" ++ braced operand)
  | _ => .error (.noSymbol op .after)

/-- An operator between the finished texts of its operands. -/
def latexBetween (op : Kind) (left right : String) : Except LatexError String :=
  match op with
  | sub => .ok (left ++ "_" ++ braced right)
  | super => .ok (left ++ "^" ++ braced right)
  | divide => .ok ("\\frac" ++ braced left ++ braced right)
  | _ =>
    match op.infixSymbol? with
    | some symbol => .ok (left ++ " " ++ symbol ++ " " ++ right)
    | none => .error (.noSymbol op .between)

end Kind

namespace Expr

mutual

/-- The formula in LaTeX. Of several operators without a symbol the one that is written first is
reported, where an operator over bounds is written before them and any other after its
operands. -/
def latex : Expr → Except LatexError String
  | name text => .ok text
  | prefixed op operand => do op.latexBefore (← operand.latex)
  | postfixed op operand => do op.latexAfter (← operand.latex)
  | binary op left right => do
    let left ← left.latex
    let right ← right.latex
    op.latexBetween left right
  | bounded op bounds body =>
    match op.boundedSymbol? with
    | none => .error (.noSymbol op .overBounds)
    | some symbol => do
      let bounds ← latexBounds symbol bounds
      let body ← body.latex
      .ok ((if bounds.isEmpty then symbol else " ".intercalate bounds) ++ " " ++ body)

/-- Each bound with the symbol it belongs to. A range has a lower and an upper end, anything else
is an upper end. -/
def latexBounds (symbol : String) : List Expr → Except LatexError (List String)
  | [] => .ok []
  | binary .upTo lower upper :: bounds => do
    let lower ← lower.latex
    let upper ← upper.latex
    let rest ← latexBounds symbol bounds
    .ok ((symbol ++ "_" ++ braced lower ++ "^" ++ braced upper) :: rest)
  | bound :: bounds => do
    let upper ← bound.latex
    let rest ← latexBounds symbol bounds
    .ok ((symbol ++ "^" ++ braced upper) :: rest)

end

end Expr

end MathShorthand
