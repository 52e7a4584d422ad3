import MathShorthand.Proofs.Grammar.Brackets
import MathShorthand.Proofs.Grammar.Link

/-!
# Writing a tree out

Every tree of operators has tokens that are read as that tree: a bracket around every operand leaves
no doubt where it stands. The levels that reading them takes can be told from the tree
(`levelsSpelled`), so it is known in advance which trees nest too deep for that.
-/

namespace MathShorthand

namespace Expr

mutual

/-- The tokens of a tree with every operand in brackets. All but names have the texts `texts`. -/
def spelled (texts : Kind → String) : Expr → List Token
  | name text => [⟨.name, text⟩]
  | prefixed op x => ⟨op, texts op⟩ :: enclosed texts (x.spelled texts)
  | postfixed op x => enclosed texts (x.spelled texts) ++ [⟨op, texts op⟩]
  | binary op left right =>
    enclosed texts (left.spelled texts) ++ ⟨op, texts op⟩ :: enclosed texts (right.spelled texts)
  | bounded op bounds body =>
    ⟨op, texts op⟩ ::
      (spelledBounds texts bounds ++
        ⟨.ofBody, texts .ofBody⟩ :: enclosed texts (body.spelled texts))

/-- Bounds in brackets, with commas between them. -/
def spelledBounds (texts : Kind → String) : List Expr → List Token
  | [] => []
  | [bound] => enclosed texts (bound.spelled texts)
  | bound :: bounds =>
    enclosed texts (bound.spelled texts) ++ ⟨.comma, texts .comma⟩ :: spelledBounds texts bounds

end

theorem spelledBounds_cons (texts : Kind → String) (e : Expr) {es : List Expr} (more : es ≠ []) :
    spelledBounds texts (e :: es) =
      enclosed texts (e.spelled texts) ++ ⟨.comma, texts .comma⟩ :: spelledBounds texts es := by
  obtain ⟨e', es, rfl⟩ := List.exists_cons_of_ne_nil more
  rfl

mutual

/-- The levels that the tokens of a tree take. The bracket around an operand takes one, except where
it starts the expression. -/
def levelsSpelled : Expr → Nat
  | name _ => 1
  | prefixed _ x => 2 + x.levelsSpelled
  | postfixed _ x => 1 + x.levelsSpelled
  | binary _ left right => max (1 + left.levelsSpelled) (3 + right.levelsSpelled)
  | bounded _ bounds body => 2 + max (mostLevelsSpelled bounds) body.levelsSpelled

def mostLevelsSpelled : List Expr → Nat
  | [] => 0
  | e :: es => max e.levelsSpelled (mostLevelsSpelled es)

end

end Expr

namespace Grammar

variable (texts : Kind → String)

/-- The derivation spells out the tree, and ends wherever no operator follows. -/
structure Phrase.SpellsOut (d : Phrase 0) (e : Expr) : Prop where
  tokens : d.tokens = e.spelled texts
  tree : d.tree = e
  levels : d.levels = e.levelsSpelled
  longest : ∀ rest, Stops 0 rest → d.Longest rest

structure Bounds.SpellsOut (bs : Bounds) (es : List Expr) : Prop where
  tokens : bs.tokens = Expr.spelledBounds texts es
  trees : bs.trees = es
  -- without bounds there are no brackets, so their level is only counted beside the body
  levels : ∀ k, max bs.levels (k + 1) = max (Expr.mostLevelsSpelled es) k + 1
  longest : ∀ rest, Stops 0 rest → bs.Longest rest

variable {texts}

theorem Phrase.SpellsOut.name (text : String) :
    (Phrase.mk (.name text) .nil).SpellsOut texts (.name text) :=
  ⟨rfl, rfl, rfl, fun _ stops => ⟨trivial, trivial, stops⟩⟩

theorem Phrase.SpellsOut.prefixed {op : Kind} (sign : op ∈ signs) {operand : Phrase 0} {x : Expr}
    (spells : operand.SpellsOut texts x) :
    (Phrase.mk (.signed ⟨op, texts op⟩ sign (operand.enclosed texts)) .nil).SpellsOut texts
      (.prefixed op x) where
  tokens := by
    simp [Phrase.tokens, Head.first, Head.others, Links.tokens, Expr.spelled, spells.tokens]
  tree := by rw [Phrase.tree, Head.tree, Phrase.tree_enclosed, spells.tree, Links.tree]
  levels := by
    simp only [Phrase.levels, Head.levels, Phrase.levels_enclosed, Links.levels, spells.levels,
      Expr.levelsSpelled]
    omega
  longest rest stops := by
    have stops_sign : Stops signRank rest := stops.mono (Nat.zero_le signRank)
    have inner := Phrase.longest_enclosed texts spells.longest stops_sign
    exact ⟨inner, trivial, stops⟩

theorem Phrase.SpellsOut.postfixed {op : Kind} (listed : op ∈ marks) {operand : Phrase 0} {x : Expr}
    (spells : operand.SpellsOut texts x) :
    (Phrase.mk (.group (texts .leftParen) operand (texts .rightParen))
      (.mark ⟨op, texts op⟩ listed (by decide) .nil)).SpellsOut texts (.postfixed op x) where
  tokens := by
    rw [Phrase.tokens_group, spells.tokens, Links.tokens, Links.tokens, Expr.spelled]
  tree := by rw [Phrase.tree, Head.tree, spells.tree, Links.tree, Links.tree]
  levels := by
    have pos := operand.levels_pos
    simp only [Phrase.levels, Head.levels, Links.levels, ← spells.levels, Expr.levelsSpelled]
    omega
  longest rest stops := ⟨spells.longest _ (Nat.le_refl 0), trivial, stops⟩

theorem exists_spellsOut_binary {op : Kind} (listed : op ∈ connectives) {left right : Phrase 0}
    {l r : Expr} (spells_left : left.SpellsOut texts l) (spells_right : right.SpellsOut texts r) :
    ∃ d : Phrase 0, d.SpellsOut texts (.binary op l r) := by
  have tight : ∀ op ∈ connectives, 0 < op.precedence := by decide
  obtain ⟨link, tokens, tree, levels, longest⟩ :=
    exists_link ⟨op, texts op⟩ listed (tight op listed) (right.enclosed texts) .nil
  have pos := left.levels_pos
  refine ⟨.mk (.group (texts .leftParen) left (texts .rightParen)) link, ?_, ?_, ?_, ?_⟩
  · rw [Phrase.tokens_group, tokens, Phrase.tokens_enclosed, Links.tokens, List.append_nil,
      spells_left.tokens, spells_right.tokens, Expr.spelled]
  · rw [Phrase.tree, Head.tree, tree, Phrase.tree_enclosed, spells_left.tree, spells_right.tree,
      Links.tree]
  · rw [Phrase.levels, Head.levels, levels, Phrase.levels_enclosed, spells_left.levels,
      spells_right.levels, Links.levels, Expr.levelsSpelled]
    omega
  · intro rest stops
    have inner := Phrase.longest_enclosed texts spells_right.longest
      (stops.mono (Nat.zero_le op.rightRank))
    exact ⟨spells_left.longest _ (Nat.le_refl 0), longest rest inner trivial, stops⟩

theorem exists_spellsOut_bounds_cons {bound : Phrase 0} {e : Expr} {bs : Bounds} {es : List Expr}
    (spells : bound.SpellsOut texts e) (spells_others : bs.SpellsOut texts es) :
    ∃ bs' : Bounds, bs'.SpellsOut texts (e :: es) := by
  have longest (rest : List Token) (stops : Stops 0 rest) :
      (bound.enclosed texts : Phrase 0).Longest rest :=
    Phrase.longest_enclosed texts spells.longest stops
  cases es with
  | nil =>
    refine ⟨.last (bound.enclosed texts), ?_, ?_, fun k => ?_, longest⟩
    · rw [Bounds.tokens, Phrase.tokens_enclosed, spells.tokens, Expr.spelledBounds]
    · rw [Bounds.trees, Phrase.tree_enclosed, spells.tree]
    · rw [Bounds.levels, Phrase.levels_enclosed, spells.levels, Expr.mostLevelsSpelled,
        Expr.mostLevelsSpelled]
      omega
  | cons e' es =>
    refine ⟨.more (bound.enclosed texts) (texts .comma) bs, ?_, ?_, fun k => ?_, ?_⟩
    · rw [Bounds.tokens, Phrase.tokens_enclosed, spells.tokens, spells_others.tokens,
        Expr.spelledBounds_cons texts e (List.cons_ne_nil e' es)]
    · rw [Bounds.trees, Phrase.tree_enclosed, spells.tree, spells_others.trees]
    · have others := spells_others.levels k
      rw [Bounds.levels, Phrase.levels_enclosed, spells.levels, Expr.mostLevelsSpelled]
      omega
    · intro rest stops
      exact ⟨longest _ (Nat.le_refl 0), spells_others.longest rest stops⟩

theorem Phrase.SpellsOut.bounded {op : Kind} (binder : op ∈ binders) {bs : Bounds} {es : List Expr}
    {body : Phrase 0} {e : Expr} (spells_bounds : bs.SpellsOut texts es)
    (spells : body.SpellsOut texts e) :
    (Phrase.mk (.bound ⟨op, texts op⟩ binder bs (texts .ofBody) (body.enclosed texts)) .nil).SpellsOut
      texts (.bounded op es e) where
  tokens := by
    simp [Phrase.tokens, Head.first, Head.others, Links.tokens, Expr.spelled, spells_bounds.tokens,
      spells.tokens]
  tree := by
    rw [Phrase.tree, Head.tree, Phrase.tree_enclosed, spells_bounds.trees, spells.tree, Links.tree]
  levels := by
    have counted := spells_bounds.levels body.levels
    rw [spells.levels] at counted
    simp only [Phrase.levels, Head.levels, Phrase.levels_enclosed, Links.levels, spells.levels,
      Expr.levelsSpelled]
    omega
  longest rest stops := by
    have inner := Phrase.longest_enclosed texts spells.longest stops
    exact ⟨⟨spells_bounds.longest _ (Nat.le_refl 0), inner⟩, trivial, stops⟩

mutual

/-- A tree is spelled out as its operands are, with a bracket around each. -/
theorem exists_spellsOut (texts : Kind → String) (e : Expr) (writable : e.Writable) :
    ∃ d : Phrase 0, d.SpellsOut texts e := by
  match e with
  | .name text => exact ⟨_, Phrase.SpellsOut.name text⟩
  | .prefixed op x =>
    obtain ⟨sign, writable⟩ := writable
    obtain ⟨d, spells⟩ := exists_spellsOut texts x writable
    exact ⟨_, spells.prefixed sign⟩
  | .postfixed op x =>
    obtain ⟨listed, writable⟩ := writable
    obtain ⟨d, spells⟩ := exists_spellsOut texts x writable
    exact ⟨_, spells.postfixed listed⟩
  | .binary op l r =>
    obtain ⟨listed, writable_left, writable_right⟩ := writable
    obtain ⟨left, spells_left⟩ := exists_spellsOut texts l writable_left
    obtain ⟨right, spells_right⟩ := exists_spellsOut texts r writable_right
    exact exists_spellsOut_binary listed spells_left spells_right
  | .bounded op es body =>
    obtain ⟨binder, writable_bounds, writable_body⟩ := writable
    obtain ⟨bs, spells_bounds⟩ := exists_spellsOut_bounds texts es writable_bounds
    obtain ⟨d, spells⟩ := exists_spellsOut texts body writable_body
    exact ⟨_, spells.bounded binder spells_bounds⟩

theorem exists_spellsOut_bounds (texts : Kind → String) (es : List Expr)
    (writable : Expr.AllWritable es) : ∃ bs : Bounds, bs.SpellsOut texts es := by
  match es with
  | [] => exact ⟨.none, rfl, rfl, fun k => rfl, fun _ _ => trivial⟩
  | e :: es =>
    obtain ⟨writable, writable_others⟩ := writable
    obtain ⟨d, spells⟩ := exists_spellsOut texts e writable
    obtain ⟨bs, spells_others⟩ := exists_spellsOut_bounds texts es writable_others
    exact exists_spellsOut_bounds_cons spells spells_others

end

end Grammar

/-- What a tree spells out is read as that tree alone, if the limit leaves it the levels that it
takes, and is nested too deep otherwise. -/
theorem readAll_spelled (texts : Kind → String) (e : Expr) (writable : e.Writable) :
    Expr.readAll (e.spelled texts) =
      if e.levelsSpelled ≤ maxDepth then .ok [e] else .error .tooDeep := by
  obtain ⟨d, spells⟩ := Grammar.exists_spellsOut texts e writable
  have spelled : Grammar.Spells [d] (e.spelled texts) :=
    ⟨[], spells.tokens ▸ (List.append_nil _).symm, spells.longest [] (Nat.le_refl 0), rfl⟩
  rw [Grammar.readAll_of_spells spelled, List.map_singleton, spells.tree]
  simp only [List.mem_singleton, forall_eq, spells.levels]

/-! ### Signs in front of a name -/

/-- The name `x` with `n` signs in front of it. -/
def Expr.negated : Nat → Expr
  | 0 => .name "x"
  | n + 1 => .prefixed .minus (negated n)

theorem Expr.writable_negated (n : Nat) : (negated n).Writable := by
  induction n with
  | zero => trivial
  | succ n ih => exact ⟨by decide, ih⟩

theorem Expr.levelsSpelled_negated (n : Nat) : (negated n).levelsSpelled = 2 * n + 1 := by
  induction n with
  | zero => rfl
  | succ n ih =>
    rw [negated, levelsSpelled, ih]
    omega

/-- `sum i = 1 to n, j of x@ _ +i` -/
def Expr.hatSum : Expr :=
  .bounded .sum [.binary .upTo (.binary .equal (.name "i") (.name "1")) (.name "n"), .name "j"]
    (.binary .sub (.postfixed .hat (.name "x")) (.prefixed .plus (.name "i")))

theorem Expr.writable_hatSum : hatSum.Writable := by
  simp [hatSum, Writable, AllWritable, Grammar.binders, Grammar.connectives, Grammar.marks,
    Grammar.signs, Grammar.leftOperators, Grammar.rightOperators]

/-- A sum over two bounds, as many signs as can be spelled out, and one sign more. -/
theorem readAll_spelled_hatSum :
    (Expr.hatSum.Writable ∧
      Expr.readAll (Expr.hatSum.spelled Kind.label) = .ok [Expr.hatSum]) ∧
    ((Expr.negated 127).Writable ∧
      Expr.readAll ((Expr.negated 127).spelled Kind.label) = .ok [Expr.negated 127]) ∧
    ((Expr.negated 128).Writable ∧
      Expr.readAll ((Expr.negated 128).spelled Kind.label) = .error .tooDeep) := by
  refine ⟨⟨Expr.writable_hatSum, ?_⟩, ⟨Expr.writable_negated 127, ?_⟩,
    Expr.writable_negated 128, ?_⟩
  · exact readAll_spelled Kind.label _ Expr.writable_hatSum
  · rw [readAll_spelled Kind.label _ (Expr.writable_negated 127), Expr.levelsSpelled_negated]
    rfl
  · rw [readAll_spelled Kind.label _ (Expr.writable_negated 128), Expr.levelsSpelled_negated]
    rfl

end MathShorthand
