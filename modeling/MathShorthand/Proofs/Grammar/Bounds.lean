import MathShorthand.Proofs.Grammar.Follow

/-!
# Bounds up to their end

The bounds of an operator are read with a limit on their number, which is there for the recursion
only. Every bound takes a token, so the limit is never met (`readBounds_of_starts`), and reading
bounds ends at the token that ends them and nowhere else.
-/

namespace MathShorthand

namespace Outcome

variable {α β : Type} {o : Outcome α}

theorem andThen_congr {next next' : α → List Token → Outcome β}
    (same : ∀ a rest, o = .done a rest → next a rest = next' a rest) :
    o.andThen next = o.andThen next' := by
  obtain ⟨_ | a, rest⟩ := o
  · rfl
  · exact same a rest rfl

theorem andThen_assoc {γ : Type} (o : Outcome α) (next : α → List Token → Outcome β)
    (last : β → List Token → Outcome γ) :
    (o.andThen next).andThen last = o.andThen fun a rest => (next a rest).andThen last := by
  obtain ⟨_ | a, rest⟩ := o <;> rfl

end Outcome

/-- Whatever the operand reader reads, it takes a token for it. -/
def TakesSome (operand : OperandReader) : Prop :=
  ∀ m tokens e rest, operand m tokens = .done e rest → rest.length < tokens.length

theorem takesSome_readWithin (room : Nat) : TakesSome (Expr.readWithin room) :=
  fun _ _ _ _ => Expr.length_lt_of_readWithin

variable {operand : OperandReader} {separator terminator : Kind}

theorem length_le_of_readSeparator {tokens rest : List Token}
    (read : readSeparator separator terminator tokens = .done () rest) :
    rest.length ≤ tokens.length := by
  have suffix := rest_readSeparator_suffix separator terminator tokens
  rw [read] at suffix
  exact suffix.length_le

theorem readBoundsWithin_eq (some : TakesSome operand) {limit limit' : Nat} {tokens : List Token}
    (enough : tokens.length < limit) (enough' : tokens.length < limit') :
    readBoundsWithin operand separator terminator limit tokens =
      readBoundsWithin operand separator terminator limit' tokens := by
  induction limit generalizing limit' tokens with
  | zero => exact absurd enough (Nat.not_lt_zero _)
  | succ limit ih =>
    obtain ⟨limit', rfl⟩ := Nat.exists_eq_succ_of_ne_zero (Nat.ne_zero_of_lt enough')
    by_cases stop : (nextToken tokens).kind = terminator
    · rw [readBoundsWithin_of_stop _ _ _ stop, readBoundsWithin_of_stop _ _ _ stop]
    · rw [readBoundsWithin, readBoundsWithin, if_neg stop, if_neg stop]
      refine Outcome.andThen_congr fun bound rest read => ?_
      refine Outcome.andThen_congr fun _ rest' parted => ?_
      have shorter := some _ _ _ _ read
      have le := length_le_of_readSeparator parted
      have enough_others : rest'.length < limit := by omega
      have enough_others' : rest'.length < limit' := by omega
      rw [ih enough_others enough_others']

/-- The bounds after one that has been read. -/
def readMoreBounds (operand : OperandReader) (separator terminator : Kind) (bound : Expr)
    (tokens : List Token) : Outcome (List Expr) :=
  (readSeparator separator terminator tokens).andThen fun _ tokens =>
  (readBounds operand separator terminator tokens).andThen fun bounds tokens =>
  .done (bound :: bounds) tokens

theorem readBounds_of_starts (some : TakesSome operand) {tokens : List Token}
    (starts : (nextToken tokens).kind ≠ terminator) :
    readBounds operand separator terminator tokens =
      (operand 0 tokens).andThen (readMoreBounds operand separator terminator) := by
  rw [readBounds, readBoundsWithin, if_neg starts]
  refine Outcome.andThen_congr fun bound rest read => ?_
  refine Outcome.andThen_congr fun _ rest' parted => ?_
  have shorter := some _ _ _ _ read
  have le := length_le_of_readSeparator parted
  have enough : rest'.length < tokens.length := by omega
  rw [readBounds, readBoundsWithin_eq some enough (Nat.lt_succ_self _)]

theorem readBounds_of_stop (operand : OperandReader) (separator : Kind) {tokens : List Token}
    (stop : (nextToken tokens).kind = terminator) :
    readBounds operand separator terminator tokens = .done [] tokens :=
  readBoundsWithin_of_stop operand separator _ stop

theorem nextToken_of_readBounds (some : TakesSome operand) {tokens rest : List Token}
    {es : List Expr} (read : readBounds operand separator terminator tokens = .done es rest) :
    (nextToken rest).kind = terminator := by
  induction len : tokens.length using Nat.strongRecOn generalizing tokens es with
  | ind n ih =>
    by_cases stop : (nextToken tokens).kind = terminator
    · rw [readBounds_of_stop operand separator stop] at read
      obtain ⟨-, rfl⟩ := Outcome.done_inj read
      exact stop
    · rw [readBounds_of_starts some stop] at read
      obtain ⟨bound, mid, first, read⟩ := Outcome.andThen_eq_done read
      obtain ⟨_, others, parted, read⟩ := Outcome.andThen_eq_done read
      obtain ⟨es', rest', then_, same⟩ := Outcome.andThen_eq_done read
      obtain ⟨-, rfl⟩ := Outcome.done_inj same
      have shorter := some _ _ _ _ first
      have le := length_le_of_readSeparator parted
      exact ih others.length (by omega) then_ rfl

end MathShorthand
