import MathShorthand.Proofs.Grammar.Link

/-!
# Reading at a higher rank

At a higher rank an expression ends sooner, in front of the first link of its chain that binds no
tighter (`Links.exists_splits`). What stands in front of that link is derived as before, so it is
read without fail, and the links behind it have only put more operators on top of its tree
(`Expr.OnSpine`).
-/

namespace MathShorthand

/-- The tree `part` is reached from the other one by going from operators to what stands in front of
them. -/
inductive Expr.OnSpine (part : Expr) : Expr → Prop
  | whole : OnSpine part part
  | binary (op : Kind) {left : Expr} (right : Expr) (inside : OnSpine part left) :
    OnSpine part (.binary op left right)
  | postfixed (op : Kind) {operand : Expr} (inside : OnSpine part operand) :
    OnSpine part (.postfixed op operand)

theorem Expr.OnSpine.trans {a b c : Expr} (first : a.OnSpine b) (then_ : b.OnSpine c) :
    a.OnSpine c := by
  induction then_ with
  | whole => exact first
  | binary op right _ ih => exact .binary op right ih
  | postfixed op _ ih => exact .postfixed op ih

namespace Grammar

variable {m n r : Nat}

/-- The links of a chain are put on top of the tree that it starts with. -/
theorem Links.onSpine_tree (ls : Links m) (start : Expr) : start.OnSpine (ls.tree start) := by
  induction ls using Links.chain_induction generalizing start with
  | nil => exact .whole
  | left op _ _ operand others ih | right op _ _ operand others ih =>
    exact (Expr.OnSpine.whole.binary op.kind operand.tree).trans (ih _)
  | mark op _ _ others ih => exact (Expr.OnSpine.whole.postfixed op.kind).trans (ih _)

theorem precedence_of_mark {op : Kind} (listed : op ∈ marks) : op.precedence = markRank := by
  have all : ∀ op ∈ marks, op.precedence = markRank := by decide
  exact all op listed

/-! ### Splitting a chain -/

/-- Of the links `ls`, a chain at the rank `n` has those in `front` and ends in front of `back`. -/
structure Links.Splits (ls : Links m) (front : Links n) (back : List Token) : Prop where
  tokens : ls.tokens = front.tokens ++ back
  stops : ∀ rest, Stops m rest → Stops n (back ++ rest)
  longest : ∀ rest, ls.Longest rest → front.Longest (back ++ rest)
  levels : front.levels ≤ ls.levels
  tree : ∀ start, (front.tree start).OnSpine (ls.tree start)

theorem Links.splits_nil (ls : Links m)
    (stops : ∀ rest, Stops m rest → Stops n (ls.tokens ++ rest)) :
    ls.Splits (.nil : Links n) ls.tokens where
  tokens := rfl
  stops := stops
  longest _ _ := trivial
  levels := Nat.zero_le _
  tree := ls.onSpine_tree

section

variable {others : Links m} {front : Links n} {back : List Token} (split : others.Splits front back)
  {op : Token}
include split

theorem Links.Splits.tokens_append (rest : List Token) :
    others.tokens ++ rest = front.tokens ++ (back ++ rest) := by
  rw [split.tokens, List.append_assoc]

theorem Links.Splits.left (listed : (op.kind, r) ∈ leftOperators) (tighter : m < r)
    (tighter' : n < r) (right : Phrase r) :
    (Links.left op listed tighter right others).Splits (.left op listed tighter' right front)
      back where
  tokens := by simp only [Links.tokens, split.tokens, List.cons_append, List.append_assoc]
  stops := split.stops
  longest rest := fun ⟨longest_right, longest_others⟩ =>
    ⟨split.tokens_append rest ▸ longest_right, split.longest rest longest_others⟩
  levels := by
    have le := split.levels
    simp only [Links.levels]
    omega
  tree _ := split.tree _

theorem Links.Splits.right (listed : (op.kind, r) ∈ rightOperators) (tighter : m < r)
    (tighter' : n < r) (right : Phrase (r - 1)) :
    (Links.right op listed tighter right others).Splits (.right op listed tighter' right front)
      back where
  tokens := by simp only [Links.tokens, split.tokens, List.cons_append, List.append_assoc]
  stops := split.stops
  longest rest := fun ⟨longest_right, longest_others⟩ =>
    ⟨split.tokens_append rest ▸ longest_right, split.longest rest longest_others⟩
  levels := by
    have le := split.levels
    simp only [Links.levels]
    omega
  tree _ := split.tree _

theorem Links.Splits.mark (listed : op.kind ∈ marks) (tighter : m < markRank)
    (tighter' : n < markRank) :
    (Links.mark op listed tighter others).Splits (.mark op listed tighter' front) back where
  tokens := by simp only [Links.tokens, split.tokens, List.cons_append]
  stops := split.stops
  longest := split.longest
  levels := Nat.succ_le_succ split.levels
  tree _ := split.tree _

end

theorem Links.exists_splits (le : m ≤ n) (ls : Links m) :
    ∃ (front : Links n) (back : List Token), ls.Splits front back := by
  -- in front of a link that binds no tighter than `n`, the chain ends
  have ends {op : Token} {r : Nat} (ranked : op.kind.precedence = r) (loose : ¬n < r)
      (tokens : List Token) : Stops n (op :: tokens) :=
    Nat.le_trans (Nat.le_of_eq ranked) (Nat.le_of_not_lt loose)
  induction ls using Links.chain_induction with
  | nil => exact ⟨.nil, [], Links.splits_nil _ fun rest stops => stops.mono le⟩
  | @left r op listed tighter operand others ih =>
    by_cases tighter' : n < r
    · obtain ⟨front, back, split⟩ := ih
      exact ⟨_, back, split.left listed tighter tighter' operand⟩
    · exact ⟨.nil, _, Links.splits_nil _ fun _ _ => ends (rank_of_left listed).1 tighter' _⟩
  | @right r op listed tighter operand others ih =>
    by_cases tighter' : n < r
    · obtain ⟨front, back, split⟩ := ih
      exact ⟨_, back, split.right listed tighter tighter' operand⟩
    · exact ⟨.nil, _, Links.splits_nil _ fun _ _ => ends (rank_of_right listed).1 tighter' _⟩
  | mark op listed tighter others ih =>
    by_cases tighter' : n < markRank
    · obtain ⟨front, back, split⟩ := ih
      exact ⟨_, back, split.mark listed tighter tighter'⟩
    · exact ⟨.nil, _, Links.splits_nil _ fun _ _ => ends (precedence_of_mark listed) tighter' _⟩

/-! ### Expressions -/

/-- The front of a derivation derives an expression at any higher rank, in no more levels. -/
theorem Phrase.exists_front (le : m ≤ n) (d : Phrase m) :
    ∃ (front : Phrase n) (back : List Token), d.tokens = front.tokens ++ back ∧
      (∀ rest, d.Longest rest → front.Longest (back ++ rest)) ∧ front.levels ≤ d.levels ∧
      front.tree.OnSpine d.tree := by
  obtain ⟨head, links⟩ := d
  obtain ⟨front, back, split⟩ := links.exists_splits le
  refine ⟨.mk head front, back, ?_, fun rest ⟨longest_head, longest_links, stops⟩ => ?_, ?_,
    split.tree head.tree⟩
  · simp only [Phrase.tokens, split.tokens, List.cons_append, List.append_assoc]
  · rw [split.tokens_append rest] at longest_head
    exact ⟨longest_head, split.longest rest longest_links, split.stops rest stops⟩
  · have le := split.levels
    simp only [Phrase.levels]
    omega

/-- Where an expression is read at some rank, one is read at any higher rank. It leaves no fewer
tokens, and the operators that it leaves are put on top of its tree at the lower rank. -/
theorem parse_at_higher_rank (le : m ≤ n) {tokens : List Token} {e : Expr} {p : Parser}
    (read : (Parser.ofTokens tokens).parse m = (.ok e, p)) :
    ∃ part rest, (Parser.ofTokens tokens).parse n = (.ok part, .ofTokens rest) ∧
      p.tokens <:+ rest ∧ part.OnSpine e := by
  obtain ⟨done, -⟩ := (parse_ofTokens_eq_ok_iff tokens m e p).mp read
  obtain ⟨d, rfl, longest, rfl, fits⟩ := (readWithin_eq_done_iff ..).mp done
  obtain ⟨front, back, split, longest_front, levels, spine⟩ := d.exists_front le
  refine ⟨front.tree, back ++ p.tokens, ?_, List.suffix_append back p.tokens, spine⟩
  refine (parse_ofTokens_eq_ok_iff _ n _ _).mpr ⟨(readWithin_eq_done_iff ..).mpr
    ⟨front, ?_, longest_front _ longest, rfl, Nat.le_trans levels fits⟩, rfl⟩
  rw [split, List.append_assoc]
  rfl

/-- At the rank of a sum the quotient is read up to the minus behind it. In its brackets every
operator is let in as before. -/
theorem parse_at_higher_rank_quotient :
    let tokens : List Token := [⟨.minus, "-"⟩, ⟨.name, "a"⟩, ⟨.divide, "/"⟩, ⟨.leftParen, "("⟩,
      ⟨.name, "b"⟩, ⟨.equal, "="⟩, ⟨.name, "c"⟩, ⟨.rightParen, ")"⟩, ⟨.hat, "@"⟩, ⟨.minus, "-"⟩,
      ⟨.name, "d"⟩, ⟨.upTo, "to"⟩, ⟨.sum, "sum"⟩, ⟨.ofBody, "of"⟩, ⟨.name, "x"⟩, ⟨.comma, ","⟩]
    let quotient : Expr := .binary .divide (.prefixed .minus (.name "a"))
      (.postfixed .hat (.binary .equal (.name "b") (.name "c")))
    let whole : Expr := .binary .upTo (.binary .minus quotient (.name "d"))
      (.bounded .sum [] (.name "x"))
    0 ≤ 6 ∧ (Parser.ofTokens tokens).parse 0 = (.ok whole, .ofTokens [⟨.comma, ","⟩]) ∧
      (Parser.ofTokens tokens).parse 6 = (.ok quotient, .ofTokens (tokens.drop 9)) ∧
      [⟨.comma, ","⟩] <:+ tokens.drop 9 ∧ quotient.OnSpine whole := by
  intro tokens quotient whole
  have read : (Parser.ofTokens tokens).parse 0 = (.ok whole, .ofTokens [⟨.comma, ","⟩]) := rfl
  obtain ⟨part, rest, higher, suffix, spine⟩ := parse_at_higher_rank (Nat.zero_le 6) read
  have computed : (Parser.ofTokens tokens).parse 6 =
      (.ok quotient, .ofTokens (tokens.drop 9)) := rfl
  obtain ⟨same, rests⟩ := Prod.mk.inj (higher.symm.trans computed)
  obtain rfl : part = quotient := Except.ok.inj same
  obtain rfl : rest = tokens.drop 9 := congrArg Parser.tokens rests
  exact ⟨Nat.zero_le 6, read, computed, suffix, spine⟩

end Grammar

end MathShorthand
