import MathShorthand.Precedence
import MathShorthand.Token.Basic

/-!
# Rules

What a token may do where an expression starts (`Kind.prefixRule?`) and where one could go on
(`Kind.infixRule?`). Everything else a reader of tokens does follows from these two tables.
-/

namespace MathShorthand

/-- What a token that starts an expression asks of the tokens after it. -/
inductive PrefixRule where
  /-- The token is the whole expression. -/
  | name
  /-- An expression in brackets, up to `close`. -/
  | group (close : Kind)
  /-- One operand, whose operators bind tighter than `precedence`. -/
  | operator (precedence : Precedence)
  /-- Bounds parted by `separator` up to `terminator`, and then a body. -/
  | bounded (separator terminator : Kind)
  deriving DecidableEq

/-- What a token that continues an expression asks of the tokens after it. -/
inductive InfixRule where
  /-- An operator between two operands. -/
  | binary (precedence : Precedence) (associativity : Associativity)
  /-- An operator after its only operand. -/
  | postfixed (precedence : Precedence)
  deriving DecidableEq

/-- How tightly the rule binds the operand on its left. -/
def InfixRule.precedence : InfixRule → Precedence
  | binary p _ => p
  | postfixed p => p

/-- The rank that operators of a binary operator's right operand have to exceed. -/
def Associativity.rightRank (p : Precedence) : Associativity → Nat
  | left => p.rank
  | right => p.rank - 1

namespace Kind

/-- The rule of a kind where an expression starts. -/
def prefixRule? : Kind → Option PrefixRule
  | leftParen => some (.group rightParen)
  | escape | plus | minus | super | sub => some (.operator .prefixed)
  | name => some .name
  | integral | sum | product => some (.bounded comma ofBody)
  | _ => none

/-- The rule of a kind where an expression could go on. -/
def infixRule? : Kind → Option InfixRule
  | equal | geq | leq | neq | approx => some (.binary .comparison .right)
  | upTo => some (.binary .upTo .right)
  | plus | minus => some (.binary .sum .left)
  | looseTimes => some (.binary .looseProduct .left)
  | times => some (.binary .product .left)
  | divide => some (.binary .division .left)
  | super | sub => some (.binary .exponent .left)
  | hat | vector => some (.postfixed .postfixed)
  | _ => none

/-- The rank at which a kind continues an expression, zero for one that cannot. -/
def precedence (k : Kind) : Nat :=
  match k.infixRule? with
  | some rule => rule.precedence.rank
  | none => 0

theorem precedence_eq_zero_iff (k : Kind) : k.precedence = 0 ↔ k.infixRule? = none := by
  cases k <;> decide

end Kind

end MathShorthand
