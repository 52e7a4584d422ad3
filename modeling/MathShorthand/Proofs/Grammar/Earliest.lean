import MathShorthand.Proofs.Grammar.Failure

/-!
# The earliest error

A sequence of tokens that is not too deep is refused at the first token that makes it hopeless: what
stands in front of that token can be gone on with, and whatever goes on with it is refused there.
-/

namespace MathShorthand

namespace Expr

/-- The expressions that the tokens spell back to back, and the tokens that are left where reading
ends. -/
def readThrough : List Token → Outcome (List Expr)
  | [] => .done [] []
  | token :: tokens =>
    match found : read 0 (token :: tokens) with
    | ⟨.error e, rest⟩ => ⟨.error e, rest⟩
    | ⟨.ok e, rest⟩ =>
      have := length_lt_of_readWithin found
      (readThrough rest).andThen fun es rest => .done (e :: es) rest
termination_by tokens => tokens.length
decreasing_by assumption

/-- The expressions after one that has been read. -/
def readOthers (e : Expr) (tokens : List Token) : Outcome (List Expr) :=
  (readThrough tokens).andThen fun es rest => .done (e :: es) rest

theorem readThrough_eq {tokens : List Token} (some_tokens : tokens ≠ []) :
    readThrough tokens = (read 0 tokens).andThen readOthers := by
  obtain ⟨token, tokens, rfl⟩ := List.exists_cons_of_ne_nil some_tokens
  rw [readThrough]
  split
  · next found => exact (congrArg (fun o => o.andThen readOthers) found).symm
  · next found => exact (congrArg (fun o => o.andThen readOthers) found).symm

/-- It gives what `readAll` gives. -/
theorem result_readThrough (tokens : List Token) : (readThrough tokens).result = readAll tokens := by
  fun_induction readAll tokens with
  | case1 =>
    rw [readThrough]
    rfl
  | case2 token tokens cause rest found =>
    rw [readThrough_eq (List.cons_ne_nil _ _), found]
    rfl
  | case3 token tokens e rest found progress cause failed ih =>
    rw [readThrough_eq (List.cons_ne_nil _ _), found, Outcome.ok_andThen, readOthers]
    exact Outcome.result_andThen_of_error (ih.trans failed)
  | case4 token tokens e rest found progress es all ih =>
    rw [readThrough_eq (List.cons_ne_nil _ _), found, Outcome.ok_andThen, readOthers]
    have read := ih.trans all
    cases inside : readThrough rest with
    | mk result left =>
      rw [inside] at read
      cases read
      rfl

end Expr

namespace Grammar

open MathShorthand.Expr (readThrough readOthers)

theorem canEnd_readOthers (e : Expr) : CanEnd (Stops 0) (· = []) (readOthers e) := by
  refine ⟨[], [e], fun rest ending => ?_⟩
  subst ending
  refine ⟨Nat.le_refl 0, ?_⟩
  rw [List.nil_append, readOthers, readThrough]
  rfl

theorem locates_readThrough (n : Nat) :
    Locates (fun tokens => tokens.length < n) (· = []) readThrough := by
  -- every expression takes a token, so there are fewer of them for the expressions behind it
  induction n with
  | zero => exact fun _ _ _ short => absurd short (Nat.not_lt_zero _)
  | succ n ih =>
    intro tokens cause rest short failed not_deep
    have some_tokens : tokens ≠ [] := by
      rintro rfl
      rw [readThrough] at failed
      cases congrArg Outcome.result failed
    have locates : Locates (fun tokens => tokens.length < n + 1) (· = [])
        fun tokens => (Expr.read 0 tokens).andThen readOthers := by
      refine Locates.andThen (readsAgain_readWithin maxDepth 0)
        (fun tokens cause rest _ => (locates_within maxDepth).1 0 tokens cause rest trivial)
        (fun tokens e rest short read => ?_) canEnd_readOthers
        (fun e => ih.andThen_done (e :: ·))
      exact Nat.lt_of_lt_of_le (takesSome_readWithin maxDepth _ _ _ _ read)
        (Nat.le_of_lt_succ short)
    rw [Expr.readThrough_eq some_tokens] at failed
    obtain ⟨seen, back, rfl, broken⟩ := locates _ _ _ short failed not_deep
    refine ⟨seen, back, rfl, broken.congr (fun tokens => Expr.readThrough_eq) ?_ ?_ some_tokens⟩
    · intro tokens tokens' head
      rw [← List.isSome_head?, ← List.isSome_head?, head]
      exact id
    · rintro tokens es rest read rfl
      obtain ⟨e, mid, first, -⟩ := Outcome.andThen_eq_done read
      exact Expr.result_readWithin_nil maxDepth 0 e (congrArg Outcome.result first)

end Grammar

/-- The tokens fail with `cause` for want of a better token than the `i`-th, where the end of the
tokens counts as one. -/
structure RefusedAt (tokens : List Token) (cause : ParseError) (i : Nat) : Prop where
  le_length : i ≤ tokens.length
  /-- Whatever begins with the same tokens up to that one fails in the same way. -/
  alike : i < tokens.length → ∀ tokens', tokens'.take (i + 1) = tokens.take (i + 1) →
    Expr.readAll tokens' = .error cause
  /-- What stands in front of it is the beginning of something that can be read. -/
  can_end : ∃ more es, Expr.readAll (tokens.take i ++ more) = .ok es
  /-- It is named by the cause. It starts no expression and is taken, or it is neither what has to
  come nor an operator and is left. -/
  named :
    (cause = .unexpected (tokens.getD i .eof) ∧ (tokens.getD i .eof).kind.prefixRule? = none ∧
      (Expr.readThrough tokens).rest = tokens.drop (i + 1)) ∨
    ∃ wanted, (wanted = .rightParen ∨ wanted = .comma) ∧
      cause = .expected wanted (tokens.getD i .eof) ∧ (tokens.getD i .eof).kind ≠ wanted ∧
      (tokens.getD i .eof).kind.infixRule? = none ∧
      (Expr.readThrough tokens).rest = tokens.drop i

namespace Grammar

theorem refusedAt_of_breaksOff {seen back : List Token} {cause : ParseError}
    (broken : BreaksOff (· = []) Expr.readThrough seen back cause) :
    RefusedAt (seen ++ back) cause seen.length where
  le_length := by rw [List.length_append]; exact Nat.le_add_right _ _
  alike inside tokens' same := by
    obtain ⟨t, back, rfl⟩ : ∃ t after, back = t :: after := by
      refine List.exists_cons_of_ne_nil fun none => ?_
      rw [none, List.append_nil] at inside
      exact Nat.lt_irrefl _ inside
    have begins : (seen ++ t :: back).take (seen.length + 1) = seen ++ [t] := by
      rw [List.take_length_add_append, List.take_succ_cons, List.take_zero]
    obtain ⟨rest, -, failed⟩ := broken.alike (t :: tokens'.drop (seen.length + 1)) rfl
    rw [← Expr.result_readThrough, ← List.take_append_drop (seen.length + 1) tokens', same, begins,
      List.append_assoc]
    exact congrArg Outcome.result failed
  can_end := by
    obtain ⟨more, es, ending⟩ := broken.can_end
    refine ⟨more, es, ?_⟩
    have read := (ending [] rfl).2
    rw [List.take_left, ← Expr.result_readThrough, ← List.append_nil more]
    exact congrArg Outcome.result read
  named := by
    have here : (seen ++ back).getD seen.length .eof = nextToken back := by
      rw [List.getD_eq_getElem?_getD, List.getElem?_append_right (Nat.le_refl _), Nat.sub_self]
      cases back <;> rfl
    obtain ⟨rest, refuses, failed⟩ := broken.alike back rfl
    rw [here, failed, List.drop_length_add_append, List.drop_left, List.drop_one]
    cases refuses with
    | unexpected no_rule => exact .inl ⟨rfl, no_rule, rfl⟩
    | expected closing other no_rule => exact .inr ⟨_, closing, rfl, other, no_rule, rfl⟩

end Grammar

/-- Tokens that cannot be read, and are not too deep, are refused at the earliest token. -/
theorem exists_refusedAt_of_readAll {tokens : List Token} {cause : ParseError}
    (failed : Expr.readAll tokens = .error cause) (not_deep : cause ≠ .tooDeep) :
    ∃ i, RefusedAt tokens cause i := by
  have outcome : Expr.readThrough tokens = ⟨.error cause, (Expr.readThrough tokens).rest⟩ := by
    rw [← failed, ← Expr.result_readThrough]
  obtain ⟨seen, back, rfl, broken⟩ :=
    Grammar.locates_readThrough _ _ _ _ (Nat.lt_succ_self _) outcome not_deep
  exact ⟨seen.length, Grammar.refusedAt_of_breaksOff broken⟩

/-- A bracket where a comma or the body should come, and an operator where an operand should. -/
theorem exists_refusedAt_bracket :
    (∃ i, RefusedAt [⟨.integral, "int"⟩, ⟨.name, "0"⟩, ⟨.upTo, "to"⟩, ⟨.name, "1"⟩,
        ⟨.leftParen, "("⟩, ⟨.name, "x"⟩, ⟨.rightParen, ")"⟩, ⟨.ofBody, "of"⟩, ⟨.name, "y"⟩]
      (.expected .comma ⟨.leftParen, "("⟩) i) ∧
    ∃ i, RefusedAt [⟨.name, "a"⟩, ⟨.leftParen, "("⟩, ⟨.name, "b"⟩, ⟨.plus, "+"⟩, ⟨.times, "*"⟩]
      (.unexpected ⟨.times, "*"⟩) i := by
  have bracket : Expr.readAll [⟨.integral, "int"⟩, ⟨.name, "0"⟩, ⟨.upTo, "to"⟩, ⟨.name, "1"⟩,
      ⟨.leftParen, "("⟩, ⟨.name, "x"⟩, ⟨.rightParen, ")"⟩, ⟨.ofBody, "of"⟩, ⟨.name, "y"⟩] =
      .error (.expected .comma ⟨.leftParen, "("⟩) :=
    Expr.readAll_of_read_eq_error (List.cons_ne_nil _ _) rfl
  have first : Expr.read 0 [⟨.name, "a"⟩, ⟨.leftParen, "("⟩, ⟨.name, "b"⟩, ⟨.plus, "+"⟩,
      ⟨.times, "*"⟩] = .done (.name "a") [⟨.leftParen, "("⟩, ⟨.name, "b"⟩, ⟨.plus, "+"⟩,
      ⟨.times, "*"⟩] := rfl
  have second : Expr.readAll [⟨.leftParen, "("⟩, ⟨.name, "b"⟩, ⟨.plus, "+"⟩, ⟨.times, "*"⟩] =
      .error (.unexpected ⟨.times, "*"⟩) :=
    Expr.readAll_of_read_eq_error (List.cons_ne_nil _ _) rfl
  have operator : Expr.readAll [⟨.name, "a"⟩, ⟨.leftParen, "("⟩, ⟨.name, "b"⟩, ⟨.plus, "+"⟩,
      ⟨.times, "*"⟩] = .error (.unexpected ⟨.times, "*"⟩) := by
    rw [Expr.readAll_of_read_eq_done first, second]
    rfl
  exact ⟨exists_refusedAt_of_readAll bracket (by decide),
    exists_refusedAt_of_readAll operator (by decide)⟩

end MathShorthand
