import MathShorthand.Pattern.CharSet

/-!
# Patterns

A pattern describes pieces of text in order of preference: of two alternatives the first that
leads to a match wins, and a repetition prefers more rounds or, if it is not greedy, fewer.
-/

namespace MathShorthand

/-- A description of pieces of text. -/
inductive Pattern where
  | empty
  /-- The empty piece at the very start of the text. -/
  | start
  | literal (text : List Char)
  /-- One character of the set. A set that was written where case does not matter is told apart
  from one that was not, although both mean the same here. -/
  | one (folded : Bool) (set : CharSet)
  /-- What stands in a pair of brackets. It means what `body` means. -/
  | group (body : Pattern)
  | seq (first second : Pattern)
  | alt (first second : Pattern)
  | opt (greedy : Bool) (body : Pattern)
  | star (greedy : Bool) (body : Pattern)
  | plus (greedy : Bool) (body : Pattern)
  deriving DecidableEq

namespace Pattern

/-- The shortest piece is empty. -/
def nullable : Pattern → Bool
  | empty | start | opt _ _ | star _ _ => true
  | literal text => text.isEmpty
  | one _ _ => false
  | seq a b => a.nullable && b.nullable
  | alt a b => a.nullable || b.nullable
  | group a | plus _ a => a.nullable

/-- Every piece is empty. -/
def hollow : Pattern → Bool
  | empty | start => true
  | literal text => text.isEmpty
  | one _ _ => false
  | seq a b | alt a b => a.hollow && b.hollow
  | group a | opt _ a | star _ a | plus _ a => a.hollow

/-- Every piece lies at the very start of the text. -/
def anchored : Pattern → Bool
  | start => true
  | empty | literal _ | one _ _ | opt _ _ | star _ _ => false
  | seq a b => a.anchored || b.anchored
  | alt a b => a.anchored && b.anchored
  | group a | plus _ a => a.anchored

def hasGroup : Pattern → Bool
  | group _ => true
  | empty | start | literal _ | one _ _ => false
  | seq a b | alt a b => a.hasGroup || b.hasGroup
  | opt _ a | star _ a | plus _ a => a.hasGroup

/-- The number of choices that stand in a pattern. A star keeps a second one, which is whether to
start at all. -/
def choices : Pattern → Nat
  | empty | start | literal _ | one _ _ => 0
  | group a => a.choices
  | seq a b => a.choices + b.choices
  | alt a b => 1 + a.choices + b.choices
  | opt _ a | plus _ a => 1 + a.choices
  | star _ a => 2 + a.choices

end Pattern

end MathShorthand
