import MathShorthand.Parser.Sequence

/-!
# Parsers

A parser holds the tokens still to be read and how many levels of nesting are open around them.
Each of its operations gives a result and the parser after it. None changes the depth, because
the levels that an expression takes are free again when it ends, well or badly.
-/

namespace MathShorthand

/-- A place in a sequence of tokens. -/
structure Parser where
  tokens : List Token
  depth : Nat := 0
  deriving DecidableEq

namespace Parser

def ofTokens (tokens : List Token) : Parser := ⟨tokens, 0⟩

/-- The levels that the next expression may take. -/
def room (p : Parser) : Nat := maxDepth - p.depth

/-- The result of a reading, and the parser after it. -/
def after {α : Type} (p : Parser) (o : Outcome α) : Except ParseError α × Parser :=
  (o.result, ⟨o.rest, p.depth⟩)

def peek (p : Parser) : Token := nextToken p.tokens

/-- Take the next token. There is always one, because the end can be taken again and again. -/
def consume (p : Parser) : Token × Parser := (p.peek, ⟨p.tokens.tail, p.depth⟩)

/-- Take the next token if it is of kind `wanted`. -/
def expect (p : Parser) (wanted : Kind) : Except ParseError Token × Parser :=
  p.after (expectToken wanted p.tokens)

def isExhausted (p : Parser) : Bool := p.tokens.isEmpty

/-- Read the next expression, going on with operators that bind tighter than `rank`. -/
def parse (p : Parser) (rank : Nat) : Except ParseError Expr × Parser :=
  p.after (Expr.readWithin p.room rank p.tokens)

/-- Read the expression that `token` starts by `rule`. The token is not taken from the parser. -/
def parsePrefix (p : Parser) (rule : PrefixRule) (token : Token) :
    Except ParseError Expr × Parser :=
  p.after (rule.read (Expr.readWithin p.room) token p.tokens)

/-- Read the expression that `token` makes of `left` by `rule`. The token is not taken from the
parser. -/
def parseInfix (p : Parser) (rule : InfixRule) (left : Expr) (token : Token) :
    Except ParseError Expr × Parser :=
  p.after (rule.read (Expr.readWithin p.room) left token p.tokens)

end Parser

end MathShorthand
