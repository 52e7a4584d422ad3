import MathShorthand.Proofs.Tree.Writable

/-!
# Operators between two operands

Which operator may stand at the root of an operand of another one (`Kind.MayHold`) is a matter of
their ranks, and where these are equal, of the way that their chains nest. The grammar says the same
by the ranks at which it derives operands, and derives a link of either kind alike (`exists_link`).
-/

namespace MathShorthand

namespace Kind

/-- The way that chains of an operator between two operands nest. -/
def associativity? (op : Kind) : Option Associativity :=
  match op.infixRule? with
  | some (.binary _ a) => some a
  | _ => none

/-- The rank that operators in the right operand of `op` have to exceed. -/
def rightRank (op : Kind) : Nat :=
  match op.infixRule? with
  | some (.binary p a) => a.rightRank p
  | _ => 0

/-- On this side of `op`, an operand may have `inner` at its root. -/
def MayHold (op : Kind) (side : Associativity) (inner : Kind) : Prop :=
  op.precedence < inner.precedence ∨
    inner.precedence = op.precedence ∧ op.associativity? = some side

instance (op : Kind) (side : Associativity) (inner : Kind) : Decidable (op.MayHold side inner) :=
  inferInstanceAs (Decidable (_ ∨ _))

theorem MayHold.precedence_le {op inner : Kind} {side : Associativity}
    (holds : op.MayHold side inner) : op.precedence ≤ inner.precedence := by
  rcases holds with tighter | ⟨same, -⟩
  · exact Nat.le_of_lt tighter
  · exact Nat.le_of_eq same.symm

end Kind

namespace Grammar

theorem rank_of_left {op : Kind} {r : Nat} (listed : (op, r) ∈ leftOperators) :
    op.precedence = r ∧ op.rightRank = r := by
  obtain ⟨p, role, rfl⟩ := (mem_leftOperators_iff op r).mp listed
  simp [Kind.precedence, Kind.rightRank, role, InfixRule.precedence, Associativity.rightRank]

theorem rank_of_right {op : Kind} {r : Nat} (listed : (op, r) ∈ rightOperators) :
    op.precedence = r ∧ op.rightRank = r - 1 := by
  obtain ⟨p, role, rfl⟩ := (mem_rightOperators_iff op r).mp listed
  simp [Kind.precedence, Kind.rightRank, role, InfixRule.precedence, Associativity.rightRank]

theorem mem_of_connective {op : Kind} (listed : op ∈ connectives) :
    (op, op.precedence) ∈ leftOperators ∧ op.rightRank = op.precedence ∨
      (op, op.precedence) ∈ rightOperators ∧ op.rightRank = op.precedence - 1 := by
  obtain ⟨⟨op, r⟩, mem, rfl⟩ := List.mem_map.mp listed
  rcases List.mem_append.mp mem with left | right
  · obtain ⟨rfl, same⟩ := rank_of_left left
    exact .inl ⟨left, same⟩
  · obtain ⟨rfl, same⟩ := rank_of_right right
    exact .inr ⟨right, same⟩

theorem le_rightRank_of_lt {op : Kind} (listed : op ∈ connectives) {m : Nat}
    (tight : m < op.precedence) : m ≤ op.rightRank := by
  rcases mem_of_connective listed with ⟨-, same⟩ | ⟨-, same⟩ <;> omega

/-- An operator goes on from another one's right operand exactly if the other one may stand at the
root of its left operand. -/
theorem mayHold_left_iff {op inner : Kind} (listed : op ∈ connectives)
    (listed_inner : inner ∈ connectives) :
    op.MayHold .left inner ↔ op.precedence ≤ inner.rightRank := by
  have all : ∀ op ∈ connectives, ∀ inner ∈ connectives,
      (op.MayHold .left inner ↔ op.precedence ≤ inner.rightRank) := by decide
  exact all op listed inner listed_inner

theorem mayHold_right_iff {op inner : Kind} (listed : op ∈ connectives)
    (listed_inner : inner ∈ connectives) :
    op.MayHold .right inner ↔ op.rightRank < inner.precedence := by
  have all : ∀ op ∈ connectives, ∀ inner ∈ connectives,
      (op.MayHold .right inner ↔ op.rightRank < inner.precedence) := by decide
  exact all op listed inner listed_inner

/-- One more operator in front of some links, whichever way its chains nest. -/
theorem exists_link {m : Nat} (op : Token) (listed : op.kind ∈ connectives)
    (tighter : m < op.kind.precedence) (right : Phrase op.kind.rightRank) (others : Links m) :
    ∃ links : Links m, links.tokens = op :: (right.tokens ++ others.tokens) ∧
      (∀ start, links.tree start = others.tree (.binary op.kind start right.tree)) ∧
      links.levels = max right.levels others.levels + 1 ∧
      ∀ rest, right.Longest (others.tokens ++ rest) → others.Longest rest → links.Longest rest := by
  rcases mem_of_connective listed with ⟨left, same⟩ | ⟨right_listed, same⟩
  · generalize op.kind.rightRank = r at same right
    subst same
    exact ⟨.left op left tighter right others, rfl, fun _ => rfl, rfl,
      fun _ longest longest_others => ⟨longest, longest_others⟩⟩
  · generalize op.kind.rightRank = r at same right
    subst same
    exact ⟨.right op right_listed tighter right others, rfl, fun _ => rfl, rfl,
      fun _ longest longest_others => ⟨longest, longest_others⟩⟩

end Grammar

end MathShorthand
