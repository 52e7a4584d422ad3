/-!
# Precedences

How tightly an operator binds. Precedences count from one, so that zero is looser than every
operator. Three of them, `keyword`, `comma` and `script`, have no operator and only keep their
places in the order.
-/

namespace MathShorthand

/-- Binding strength, from the loosest to the tightest. -/
inductive Precedence where
  | keyword | upTo | comma | comparison | looseProduct | sum | division | product
  | exponent | script | prefixed | postfixed
  deriving DecidableEq

namespace Precedence

def all : List Precedence :=
  [keyword, upTo, comma, comparison, looseProduct, sum, division, product, exponent, script,
    prefixed, postfixed]

theorem mem_all (p : Precedence) : p ∈ all := by
  cases p <;> decide

/-- The place of a precedence in the order, counted from one. -/
def rank : Precedence → Nat
  | keyword => 1
  | upTo => 2
  | comma => 3
  | comparison => 4
  | looseProduct => 5
  | sum => 6
  | division => 7
  | product => 8
  | exponent => 9
  | script => 10
  | prefixed => 11
  | postfixed => 12

theorem rank_pos (p : Precedence) : 0 < p.rank := by
  cases p <;> decide

theorem rank_le (p : Precedence) : p.rank ≤ 12 := by
  cases p <;> decide

theorem all_pairwise : all.Pairwise fun p q => p.rank < q.rank := by
  decide

end Precedence

/-- Which way a chain of operators of one precedence nests. -/
inductive Associativity where
  | left | right
  deriving DecidableEq

end MathShorthand
