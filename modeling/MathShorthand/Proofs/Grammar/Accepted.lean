import MathShorthand.Parser.State
import MathShorthand.Proofs.Grammar.Derivable

/-!
# The language that is read

A parser reads an expression exactly if the front of its tokens has a derivation that nests no
deeper than `maxDepth`, and gives the tree of that derivation. A derivation that nests deeper is
no other expression but a refusal.
-/

namespace MathShorthand.Grammar

theorem readWithin_eq_done_iff (room m : Nat) (tokens : List Token) (e : Expr)
    (rest : List Token) :
    Expr.readWithin room m tokens = .done e rest ↔
      ∃ d : Phrase m, tokens = d.tokens ++ rest ∧ d.Longest rest ∧ d.tree = e ∧
        d.levels ≤ room := by
  constructor
  · intro read
    obtain ⟨d, rfl, longest, rfl⟩ := (derivable_of_read room).1 _ _ _ _ read
    exact ⟨d, rfl, longest, rfl, (d.read_takes room longest).le_of_done read⟩
  · rintro ⟨d, rfl, longest, rfl, le⟩
    exact (d.read_takes room longest).1 le

/-- However two derivations find the same front of some tokens, they end at the same place and
have the same tree. -/
theorem Phrase.tree_unique {m : Nat} {d d' : Phrase m} {rest rest' : List Token}
    (same : d.tokens ++ rest = d'.tokens ++ rest') (longest : d.Longest rest)
    (longest' : d'.Longest rest') : d.tree = d'.tree ∧ rest = rest' := by
  have read := (d.read_takes (max d.levels d'.levels) longest).1 (Nat.le_max_left _ _)
  have read' := (d'.read_takes (max d.levels d'.levels) longest').1 (Nat.le_max_right _ _)
  rw [same, read'] at read
  obtain ⟨trees, rests⟩ := Outcome.done_inj read
  exact ⟨trees.symm, rests.symm⟩

theorem parse_ofTokens_eq_ok_iff (tokens : List Token) (m : Nat) (e : Expr) (p : Parser) :
    (Parser.ofTokens tokens).parse m = (.ok e, p) ↔
      Expr.readWithin maxDepth m tokens = .done e p.tokens ∧ p.depth = 0 := by
  obtain ⟨rest, depth⟩ := p
  have parsed : (Parser.ofTokens tokens).parse m =
      ((Expr.readWithin maxDepth m tokens).result,
        ⟨(Expr.readWithin maxDepth m tokens).rest, 0⟩) := rfl
  rw [parsed]
  obtain ⟨result, left⟩ := Expr.readWithin maxDepth m tokens
  simp only [Outcome.done, Prod.mk.injEq, Parser.mk.injEq, Outcome.mk.injEq, and_assoc, eq_comm]

/-- A fresh parser reads an expression exactly where the grammar derives one in no more than
`maxDepth` levels, and refuses one that the grammar derives in more. -/
theorem parse_eq_ok_iff_derivation (tokens : List Token) (m : Nat) :
    (∀ e p, (Parser.ofTokens tokens).parse m = (.ok e, p) ↔
      ∃ d : Phrase m, tokens = d.tokens ++ p.tokens ∧ d.Longest p.tokens ∧ d.tree = e ∧
        d.levels ≤ maxDepth ∧ p.depth = 0) ∧
    ∀ (d : Phrase m) rest, tokens = d.tokens ++ rest → d.Longest rest → maxDepth < d.levels →
      ((Parser.ofTokens tokens).parse m).1 = .error .tooDeep := by
  refine ⟨fun e p => ?_, ?_⟩
  · rw [parse_ofTokens_eq_ok_iff, readWithin_eq_done_iff]
    constructor
    · rintro ⟨⟨d, spelled, longest, same, le⟩, fresh⟩
      exact ⟨d, spelled, longest, same, le, fresh⟩
    · rintro ⟨d, spelled, longest, same, le, fresh⟩
      exact ⟨⟨d, spelled, longest, same, le⟩, fresh⟩
  · rintro d rest rfl longest deep
    exact (d.read_takes maxDepth longest).2 deep

-- A comma may follow the last bound, the body goes on to the bracket, and `-` nests to the left.
example : (Parser.ofTokens [⟨.sum, "sum"⟩, ⟨.name, "i"⟩, ⟨.comma, ","⟩, ⟨.ofBody, "of"⟩,
      ⟨.name, "x"⟩, ⟨.minus, "-"⟩, ⟨.name, "y"⟩, ⟨.minus, "-"⟩, ⟨.name, "z"⟩, ⟨.hat, "@"⟩,
      ⟨.rightParen, ")"⟩]).parse 0 =
    (.ok (.bounded .sum [.name "i"] (.binary .minus (.binary .minus (.name "x") (.name "y"))
      (.postfixed .hat (.name "z")))), .ofTokens [⟨.rightParen, ")"⟩]) := rfl

/-! ### A name in brackets -/

/-- The name `text` in `n` pairs of brackets. -/
def bracketed (text : String) : Nat → {m : Nat} → Phrase m
  | 0, _ => .mk (.name text) .nil
  | n + 1, _ => .mk (.group "(" (bracketed text n) ")") .nil

theorem levels_bracketed (text : String) (n m : Nat) :
    (bracketed text n : Phrase m).levels = n + 1 := by
  induction n generalizing m with
  | zero => rfl
  | succ n ih => simp only [bracketed, Phrase.levels, Head.levels, Links.levels, ih, Nat.max_zero]

theorem longest_bracketed (text : String) (n m : Nat) {rest : List Token} (stops : Stops m rest) :
    (bracketed text n : Phrase m).Longest rest := by
  induction n generalizing m rest with
  | zero => exact ⟨trivial, trivial, stops⟩
  | succ n ih => exact ⟨ih 0 (Nat.le_refl 0), trivial, stops⟩

theorem tree_bracketed (text : String) (n m : Nat) :
    (bracketed text n : Phrase m).tree = .name text := by
  induction n generalizing m with
  | zero => rfl
  | succ n ih => exact ih 0

/-- A name in as many brackets as there are levels nests one level too deep. With one pair fewer
it is read. -/
theorem parse_bracketed :
    ((bracketed "x" 255 : Phrase 0).Longest [] ∧
      (bracketed "x" 255 : Phrase 0).levels ≤ maxDepth ∧
      (Parser.ofTokens (bracketed "x" 255 : Phrase 0).tokens).parse 0 =
        (.ok (.name "x"), .ofTokens [])) ∧
    ((bracketed "x" 256 : Phrase 0).Longest [] ∧
      maxDepth < (bracketed "x" 256 : Phrase 0).levels ∧
      ((Parser.ofTokens (bracketed "x" 256 : Phrase 0).tokens).parse 0).1 =
        .error .tooDeep) := by
  have ends : Stops 0 [] := Nat.le_refl 0
  have longest (n : Nat) := longest_bracketed "x" n 0 ends
  have fits : (bracketed "x" 255 : Phrase 0).levels ≤ maxDepth := by
    rw [levels_bracketed]
    decide
  have deep : maxDepth < (bracketed "x" 256 : Phrase 0).levels := by
    rw [levels_bracketed]
    decide
  refine ⟨⟨longest 255, fits, ?_⟩, longest 256, deep, ?_⟩
  · exact ((parse_eq_ok_iff_derivation _ 0).1 _ _).mpr
      ⟨bracketed "x" 255, (List.append_nil _).symm, longest 255, tree_bracketed "x" 255 0, fits,
        rfl⟩
  · exact (parse_eq_ok_iff_derivation _ 0).2 (bracketed "x" 256) [] (List.append_nil _).symm
      (longest 256) deep

end MathShorthand.Grammar
