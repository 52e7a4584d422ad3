import MathShorthand.Parser.Expression

/-!
# Progress

Reading only ever takes tokens from the front, and a success takes at least one. So reading one
expression after another comes to an end.
-/

namespace MathShorthand

/-- Whatever the operand reader is given, it leaves some last part of it. -/
def TakesFromFront (operand : OperandReader) : Prop :=
  ∀ rank tokens, (operand rank tokens).rest <:+ tokens

theorem rest_readSeparator_suffix (separator terminator : Kind) (tokens : List Token) :
    (readSeparator separator terminator tokens).rest <:+ tokens := by
  unfold readSeparator
  split
  · exact List.suffix_refl tokens
  · exact Outcome.rest_andThen_suffix (rest_expectToken_suffix separator tokens) fun _ _ le => le

theorem rest_readBoundsWithin_suffix {operand : OperandReader} (front : TakesFromFront operand)
    (separator terminator : Kind) (limit : Nat) (tokens : List Token) :
    (readBoundsWithin operand separator terminator limit tokens).rest <:+ tokens := by
  induction limit generalizing tokens with
  | zero => exact List.suffix_refl tokens
  | succ limit ih =>
    unfold readBoundsWithin
    split
    · exact List.suffix_refl tokens
    · refine Outcome.rest_andThen_suffix (front 0 tokens) fun bound rest le => ?_
      have after := (rest_readSeparator_suffix separator terminator rest).trans le
      refine Outcome.rest_andThen_suffix after fun _ rest le => ?_
      exact Outcome.rest_andThen_suffix ((ih rest).trans le) fun _ _ le => le

theorem rest_prefixRule_read_suffix {operand : OperandReader} (front : TakesFromFront operand)
    (rule : PrefixRule) (token : Token) (tokens : List Token) :
    (rule.read operand token tokens).rest <:+ tokens := by
  cases rule with
  | name => exact List.suffix_refl tokens
  | group close =>
    refine Outcome.rest_andThen_suffix (front 0 tokens) fun inner rest le => ?_
    exact Outcome.rest_andThen_suffix ((rest_expectToken_suffix close rest).trans le)
      fun _ _ le => le
  | operator precedence =>
    exact Outcome.rest_andThen_suffix (front precedence.rank tokens) fun _ _ le => le
  | bounded separator terminator =>
    refine Outcome.rest_andThen_suffix
      (rest_readBoundsWithin_suffix front separator terminator _ tokens) fun bounds rest le => ?_
    refine Outcome.rest_andThen_suffix ((rest_expectToken_suffix terminator rest).trans le)
      fun _ rest le => ?_
    exact Outcome.rest_andThen_suffix ((front 0 rest).trans le) fun _ _ le => le

theorem rest_infixRule_read_suffix {operand : OperandReader} (front : TakesFromFront operand)
    (rule : InfixRule) (left : Expr) (token : Token) (tokens : List Token) :
    (rule.read operand left token tokens).rest <:+ tokens := by
  cases rule with
  | binary precedence associativity =>
    exact Outcome.rest_andThen_suffix (front _ tokens) fun _ _ le => le
  | postfixed precedence => exact List.suffix_refl tokens

namespace Expr

theorem rest_within_suffix (room : Nat) :
    TakesFromFront (readWithin room) ∧
      ∀ rank left tokens, (continueWithin room rank left tokens).rest <:+ tokens := by
  induction room with
  | zero =>
    refine ⟨fun rank tokens => List.suffix_refl tokens, fun rank left tokens => ?_⟩
    unfold continueWithin
    split <;> exact List.suffix_refl tokens
  | succ room ih =>
    constructor
    · intro rank tokens
      unfold readWithin
      split
      · exact List.tail_suffix tokens
      · refine Outcome.rest_andThen_suffix ?_ fun left rest le => (ih.2 rank left rest).trans le
        exact (rest_prefixRule_read_suffix ih.1 _ _ _).trans (List.tail_suffix tokens)
    · intro rank left tokens
      unfold continueWithin
      split
      · exact List.suffix_refl tokens
      · refine Outcome.rest_andThen_suffix ?_ fun left rest le => (ih.2 rank left rest).trans le
        exact (rest_infixRule_read_suffix ih.1 _ _ _ _).trans (List.tail_suffix tokens)

theorem rest_readWithin_suffix (room rank : Nat) (tokens : List Token) :
    (readWithin room rank tokens).rest <:+ tokens :=
  (rest_within_suffix room).1 rank tokens

theorem rest_continueWithin_suffix (room rank : Nat) (left : Expr) (tokens : List Token) :
    (continueWithin room rank left tokens).rest <:+ tokens :=
  (rest_within_suffix room).2 rank left tokens

/-- An expression takes its first token, even if nothing after it fits. -/
theorem rest_readWithin_suffix_tail (room rank : Nat) (tokens : List Token) :
    (readWithin (room + 1) rank tokens).rest <:+ tokens.tail := by
  unfold readWithin
  split
  · exact List.suffix_refl _
  · exact Outcome.rest_andThen_suffix
      (rest_prefixRule_read_suffix (rest_within_suffix room).1 _ _ _)
      fun left rest le => (rest_continueWithin_suffix room rank left rest).trans le

theorem result_readWithin_nil (room rank : Nat) (e : Expr) :
    (readWithin room rank []).result ≠ .ok e := by
  cases room <;> simp [readWithin, nextToken, Token.eof, Kind.prefixRule?]

theorem length_lt_of_readWithin {room rank : Nat} {tokens rest : List Token} {e : Expr}
    (read : readWithin room rank tokens = ⟨.ok e, rest⟩) : rest.length < tokens.length := by
  cases tokens with
  | nil => exact absurd (congrArg Outcome.result read) (result_readWithin_nil room rank e)
  | cons token tokens =>
    cases room with
    | zero => simp [readWithin] at read
    | succ room =>
      have suffix := rest_readWithin_suffix_tail room rank (token :: tokens)
      rw [read] at suffix
      exact Nat.lt_succ_of_le suffix.length_le

end Expr

end MathShorthand
