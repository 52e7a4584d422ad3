import MathShorthand.Parser.Sequence

/-!
# The grammar

A `Phrase m` derives an expression whose operators bind tighter than `m`: a head, and the links of
the chain that goes on from it. Every constructor is a production, and the side conditions on
kinds and ranks are its fields. What a derivation says is given by its `tokens`, by the `tree`
that is left of it without brackets and separators, and by the `levels` that it nests.

A derivation alone does not settle where an expression ends. `Longest` does: whatever follows an
expression in the text does not bind tighter than the expression asks for.
-/

namespace MathShorthand.Grammar

/-! ### Kinds by their place in the grammar -/

/-- The operators in front of one operand. -/
def signs : List Kind := [.escape, .plus, .minus, .super, .sub]

/-- The operators over bounds. -/
def binders : List Kind := [.integral, .sum, .product]

/-- The operators after one operand. -/
def marks : List Kind := [.hat, .vector]

/-- The rank of a mark. -/
def markRank : Nat := 12

/-- The rank that operators in the operand of a sign have to exceed. -/
def signRank : Nat := 11

/-- The operators whose chains nest to the left, with their ranks. -/
def leftOperators : List (Kind × Nat) :=
  [(.looseTimes, 5), (.plus, 6), (.minus, 6), (.divide, 7), (.times, 8), (.super, 9), (.sub, 9)]

/-- The operators whose chains nest to the right, with their ranks. -/
def rightOperators : List (Kind × Nat) :=
  [(.upTo, 2), (.equal, 4), (.geq, 4), (.leq, 4), (.neq, 4), (.approx, 4)]

theorem prefixRule?_eq_operator_iff (k : Kind) (p : Precedence) :
    k.prefixRule? = some (.operator p) ↔ k ∈ signs ∧ p = .prefixed := by
  cases k <;> simp [Kind.prefixRule?, signs, eq_comm]

theorem prefixRule?_eq_bounded_iff (k separator terminator : Kind) :
    k.prefixRule? = some (.bounded separator terminator) ↔
      k ∈ binders ∧ separator = .comma ∧ terminator = .ofBody := by
  cases k <;> simp [Kind.prefixRule?, binders, eq_comm]

theorem prefixRule?_eq_group_iff (k close : Kind) :
    k.prefixRule? = some (.group close) ↔ k = .leftParen ∧ close = .rightParen := by
  cases k <;> simp [Kind.prefixRule?, eq_comm]

theorem prefixRule?_eq_name_iff (k : Kind) : k.prefixRule? = some .name ↔ k = .name := by
  cases k <;> simp [Kind.prefixRule?]

theorem infixRule?_eq_postfixed_iff (k : Kind) (p : Precedence) :
    k.infixRule? = some (.postfixed p) ↔ k ∈ marks ∧ p = .postfixed := by
  cases k <;> simp [Kind.infixRule?, marks, eq_comm]

theorem mem_leftOperators_iff (k : Kind) (r : Nat) :
    (k, r) ∈ leftOperators ↔ ∃ p, k.infixRule? = some (.binary p .left) ∧ p.rank = r := by
  cases k <;> simp [Kind.infixRule?, leftOperators, Precedence.rank, eq_comm]

theorem mem_rightOperators_iff (k : Kind) (r : Nat) :
    (k, r) ∈ rightOperators ↔ ∃ p, k.infixRule? = some (.binary p .right) ∧ p.rank = r := by
  cases k <;> simp [Kind.infixRule?, rightOperators, Precedence.rank, eq_comm]

/-! ### Derivations -/

mutual

/-- An expression whose operators bind tighter than `m`. -/
inductive Phrase : Nat → Type where
  | mk {m : Nat} (head : Head) (links : Links m) : Phrase m

/-- What an expression can start with, up to the first operator that goes on from it. -/
inductive Head : Type where
  | name (text : String) : Head
  | group (opening : String) (inner : Phrase 0) (closing : String) : Head
  | signed (op : Token) (sign : op.kind ∈ signs) (operand : Phrase signRank) : Head
  | bound (op : Token) (binder : op.kind ∈ binders) (bounds : Bounds) (stop : String)
      (body : Phrase 0) : Head

/-- Bounds with commas between them, and perhaps one more comma after the last. -/
inductive Bounds : Type where
  | none : Bounds
  | last (bound : Phrase 0) : Bounds
  | more (bound : Phrase 0) (comma : String) (others : Bounds) : Bounds

/-- The operators of a chain that bind tighter than `m`, each with its right operand. -/
inductive Links : Nat → Type where
  | nil {m : Nat} : Links m
  | left {m r : Nat} (op : Token) (listed : (op.kind, r) ∈ leftOperators) (tighter : m < r)
      (right : Phrase r) (others : Links m) : Links m
  | right {m r : Nat} (op : Token) (listed : (op.kind, r) ∈ rightOperators) (tighter : m < r)
      (right : Phrase (r - 1)) (others : Links m) : Links m
  | mark {m : Nat} (op : Token) (listed : op.kind ∈ marks) (tighter : m < markRank)
      (others : Links m) : Links m

end

/-! ### What a derivation spells -/

/-- The token that a head starts with. -/
def Head.first : Head → Token
  | .name text => ⟨.name, text⟩
  | .group opening _ _ => ⟨.leftParen, opening⟩
  | .signed op _ _ | .bound op _ _ _ _ => op

mutual

def Phrase.tokens {m : Nat} : Phrase m → List Token
  | .mk head links => head.first :: (head.others ++ links.tokens)

/-- The tokens of a head after the first. -/
def Head.others : Head → List Token
  | .name _ => []
  | .group _ inner closing => inner.tokens ++ [⟨.rightParen, closing⟩]
  | .signed _ _ operand => operand.tokens
  | .bound _ _ bounds stop body => bounds.tokens ++ ⟨.ofBody, stop⟩ :: body.tokens

def Bounds.tokens : Bounds → List Token
  | .none => []
  | .last bound => bound.tokens
  | .more bound comma others => bound.tokens ++ ⟨.comma, comma⟩ :: others.tokens

def Links.tokens {m : Nat} : Links m → List Token
  | .nil => []
  | .left op _ _ right others | .right op _ _ right others =>
    op :: (right.tokens ++ others.tokens)
  | .mark op _ _ others => op :: others.tokens

end

/-! ### The tree of a derivation -/

mutual

def Phrase.tree {m : Nat} : Phrase m → Expr
  | .mk head links => links.tree head.tree

def Head.tree : Head → Expr
  | .name text => .name text
  | .group _ inner _ => inner.tree
  | .signed op _ operand => .prefixed op.kind operand.tree
  | .bound op _ bounds _ body => .bounded op.kind bounds.trees body.tree

def Bounds.trees : Bounds → List Expr
  | .none => []
  | .last bound => [bound.tree]
  | .more bound _ others => bound.tree :: others.trees

/-- The tree of a chain whose operators so far have made `start`. -/
def Links.tree {m : Nat} : Links m → Expr → Expr
  | .nil, start => start
  | .left op _ _ right others, start | .right op _ _ right others, start =>
    others.tree (.binary op.kind start right.tree)
  | .mark op _ _ others, start => others.tree (.postfixed op.kind start)

end

/-! ### The levels of a derivation -/

mutual

/-- The levels that an expression nests. It takes one itself, and so does every link of a chain,
for its operand and for all the links after it. -/
def Phrase.levels {m : Nat} : Phrase m → Nat
  | .mk head links => max head.levels links.levels + 1

def Head.levels : Head → Nat
  | .name _ => 0
  | .group _ inner _ => inner.levels
  | .signed _ _ operand => operand.levels
  | .bound _ _ bounds _ body => max bounds.levels body.levels

def Bounds.levels : Bounds → Nat
  | .none => 0
  | .last bound => bound.levels
  | .more bound _ others => max bound.levels others.levels

def Links.levels {m : Nat} : Links m → Nat
  | .nil => 0
  | .left _ _ _ right others | .right _ _ _ right others => max right.levels others.levels + 1
  | .mark _ _ _ others => others.levels + 1

end

/-! ### Where expressions end -/

/-- The next token does not bind tighter than `m`. -/
def Stops (m : Nat) (rest : List Token) : Prop := (nextToken rest).kind.precedence ≤ m

mutual

/-- Every expression of the derivation ends where what follows does not bind tighter than the
expression asks for. What follows the whole derivation is `rest`. -/
def Phrase.Longest {m : Nat} : Phrase m → List Token → Prop
  | .mk head links, rest =>
    head.Longest (links.tokens ++ rest) ∧ links.Longest rest ∧ Stops m rest

def Head.Longest : Head → List Token → Prop
  | .name _, _ => True
  | .group _ inner closing, rest => inner.Longest (⟨.rightParen, closing⟩ :: rest)
  | .signed _ _ operand, rest => operand.Longest rest
  | .bound _ _ bounds stop body, rest =>
    bounds.Longest (⟨.ofBody, stop⟩ :: (body.tokens ++ rest)) ∧ body.Longest rest

def Bounds.Longest : Bounds → List Token → Prop
  | .none, _ => True
  | .last bound, rest => bound.Longest rest
  | .more bound comma others, rest =>
    bound.Longest (⟨.comma, comma⟩ :: (others.tokens ++ rest)) ∧ others.Longest rest

def Links.Longest {m : Nat} : Links m → List Token → Prop
  | .nil, _ => True
  | .left _ _ _ right others, rest | .right _ _ _ right others, rest =>
    right.Longest (others.tokens ++ rest) ∧ others.Longest rest
  | .mark _ _ _ others, rest => others.Longest rest

end

theorem Phrase.tokens_ne_nil {m : Nat} (d : Phrase m) : d.tokens ≠ [] := by
  cases d
  simp [tokens]

theorem Stops.mono {m n : Nat} {rest : List Token} (stops : Stops m rest) (le : m ≤ n) :
    Stops n rest :=
  Nat.le_trans stops le

theorem Phrase.levels_pos {m : Nat} (d : Phrase m) : 0 < d.levels := by
  cases d
  exact Nat.succ_pos _

theorem Phrase.stops {m : Nat} {d : Phrase m} {rest : List Token} (longest : d.Longest rest) :
    Stops m rest := by
  cases d
  exact longest.2.2

/-! ### Few tokens -/

mutual

/-- Every level comes with a token of its own. -/
theorem Phrase.levels_le_length {m : Nat} (d : Phrase m) : d.levels ≤ d.tokens.length := by
  match d with
  | .mk head links =>
    have in_head := head.levels_le_length
    have in_links := links.levels_le_length
    rw [Phrase.levels, Phrase.tokens, List.length_cons, List.length_append]
    omega

theorem Head.levels_le_length (h : Head) : h.levels ≤ h.others.length := by
  cases h with
  | name text => exact Nat.le_refl 0
  | group opening inner closing =>
    have in_inner := inner.levels_le_length
    rw [Head.levels, Head.others, List.length_append]
    omega
  | signed op sign operand => exact operand.levels_le_length
  | bound op binder bounds stop body =>
    have in_bounds := bounds.levels_le_length
    have in_body := body.levels_le_length
    rw [Head.levels, Head.others, List.length_append, List.length_cons]
    omega

theorem Bounds.levels_le_length (bs : Bounds) : bs.levels ≤ bs.tokens.length := by
  cases bs with
  | none => exact Nat.le_refl 0
  | last bound => exact bound.levels_le_length
  | more bound comma others =>
    have in_bound := bound.levels_le_length
    have in_others := others.levels_le_length
    rw [Bounds.levels, Bounds.tokens, List.length_append, List.length_cons]
    omega

theorem Links.levels_le_length {m : Nat} (ls : Links m) : ls.levels ≤ ls.tokens.length := by
  match ls with
  | .nil => exact Nat.le_refl 0
  | .left op listed tighter right others | .right op listed tighter right others =>
    have in_right := right.levels_le_length
    have in_others := others.levels_le_length
    rw [Links.levels, Links.tokens, List.length_cons, List.length_append]
    omega
  | .mark op listed tighter others =>
    have in_others := others.levels_le_length
    rw [Links.levels, Links.tokens, List.length_cons]
    omega

end

/-! ### Chains -/

/-- Induction along a chain, which asks nothing of the right operands. -/
@[elab_as_elim]
theorem Links.chain_induction {m : Nat} {motive : Links m → Prop} (nil : motive .nil)
    (left : ∀ {r : Nat} (op : Token) (listed : (op.kind, r) ∈ leftOperators) (tighter : m < r)
      (operand : Phrase r) (others : Links m), motive others →
        motive (.left op listed tighter operand others))
    (right : ∀ {r : Nat} (op : Token) (listed : (op.kind, r) ∈ rightOperators) (tighter : m < r)
      (operand : Phrase (r - 1)) (others : Links m), motive others →
        motive (.right op listed tighter operand others))
    (mark : ∀ (op : Token) (listed : op.kind ∈ marks) (tighter : m < markRank) (others : Links m),
      motive others → motive (.mark op listed tighter others))
    (ls : Links m) : motive ls := by
  match ls with
  | .nil => exact nil
  | .left op listed tighter operand others =>
    exact left op listed tighter operand others (others.chain_induction nil left right mark)
  | .right op listed tighter operand others =>
    exact right op listed tighter operand others (others.chain_induction nil left right mark)
  | .mark op listed tighter others =>
    exact mark op listed tighter others (others.chain_induction nil left right mark)

end MathShorthand.Grammar
