import MathShorthand.Expr.Basic
import MathShorthand.Parser.Outcome
import MathShorthand.Rule

/-!
# Reading an expression

An expression starts with a token that has a rule for that, and goes on as long as the next token
binds tighter than what stands around it. Every expression inside another one, and every link of
a chain of operators, takes one level of nesting. `room` is the number of levels still free.
-/

namespace MathShorthand

/-- A way to read an operand whose operators bind tighter than a rank. -/
abbrev OperandReader := Nat → List Token → Outcome Expr

/-- What follows a bound: `separator`, or nothing in front of `terminator`. -/
def readSeparator (separator terminator : Kind) (tokens : List Token) : Outcome Unit :=
  if (nextToken tokens).kind = terminator then .done () tokens
  else (expectToken separator tokens).andThen fun _ tokens => .done () tokens

/-- The bounds in front of `terminator`, no more than `limit` of them. -/
def readBoundsWithin (operand : OperandReader) (separator terminator : Kind) :
    Nat → List Token → Outcome (List Expr)
  | 0, tokens => .done [] tokens
  | limit + 1, tokens =>
    if (nextToken tokens).kind = terminator then .done [] tokens
    else
      (operand 0 tokens).andThen fun bound tokens =>
      (readSeparator separator terminator tokens).andThen fun _ tokens =>
      (readBoundsWithin operand separator terminator limit tokens).andThen fun bounds tokens =>
      .done (bound :: bounds) tokens

/-- The bounds in front of `terminator`. Every bound takes a token, so there are at most as many
of them as there are tokens, and one more look at the end. -/
def readBounds (operand : OperandReader) (separator terminator : Kind) (tokens : List Token) :
    Outcome (List Expr) :=
  readBoundsWithin operand separator terminator (tokens.length + 1) tokens

/-- The expression that `token` starts by `rule`, up to the end of what the rule asks for. -/
def PrefixRule.read (operand : OperandReader) (rule : PrefixRule) (token : Token)
    (tokens : List Token) : Outcome Expr :=
  match rule with
  | name => .done (.name token.text) tokens
  | group close =>
    (operand 0 tokens).andThen fun inner tokens =>
    (expectToken close tokens).andThen fun _ tokens =>
    .done inner tokens
  | operator precedence =>
    (operand precedence.rank tokens).andThen fun x tokens =>
    .done (.prefixed token.kind x) tokens
  | bounded separator terminator =>
    (readBounds operand separator terminator tokens).andThen fun bounds tokens =>
    (expectToken terminator tokens).andThen fun _ tokens =>
    (operand 0 tokens).andThen fun body tokens =>
    .done (.bounded token.kind bounds body) tokens

/-- The expression that `token` makes of `left` by `rule`. -/
def InfixRule.read (operand : OperandReader) (rule : InfixRule) (left : Expr) (token : Token)
    (tokens : List Token) : Outcome Expr :=
  match rule with
  | binary precedence associativity =>
    (operand (associativity.rightRank precedence) tokens).andThen fun right tokens =>
    .done (.binary token.kind left right) tokens
  | postfixed _ => .done (.postfixed token.kind left) tokens

/-- The rule by which the next token continues an expression among operators that bind tighter
than `rank`. -/
def continuation? (rank : Nat) (tokens : List Token) : Option InfixRule :=
  (nextToken tokens).kind.infixRule?.filter fun rule => rank < rule.precedence.rank

namespace Expr

mutual

/-- An expression whose operators bind tighter than `rank`. -/
def readWithin : Nat → OperandReader
  | 0, _, tokens => ⟨.error .tooDeep, tokens⟩
  | room + 1, rank, tokens =>
    match (nextToken tokens).kind.prefixRule? with
    | none => ⟨.error (.unexpected (nextToken tokens)), tokens.tail⟩
    | some rule =>
      (rule.read (readWithin room) (nextToken tokens) tokens.tail).andThen
        (continueWithin room rank)

/-- All of an expression that starts with `left`. -/
def continueWithin : Nat → Nat → Expr → List Token → Outcome Expr
  | 0, rank, left, tokens =>
    match continuation? rank tokens with
    | none => .done left tokens
    | some _ => ⟨.error .tooDeep, tokens⟩
  | room + 1, rank, left, tokens =>
    match continuation? rank tokens with
    | none => .done left tokens
    | some rule =>
      (rule.read (readWithin room) left (nextToken tokens) tokens.tail).andThen
        (continueWithin room rank)

end

end Expr

end MathShorthand
