import MathShorthand.Proofs.Grammar.Refusal
import MathShorthand.Proofs.Grammar.Sequence

/-!
# Every failure breaks off

Whatever fails in reading an expression breaks off at a token, unless it is too deep
(`locates_within`). The rules for bounds are the only ones with a loop, and what they may miss depends
on where it stands: a comma behind a bound, and never the token that ends the bounds, because the
loop goes on until that comes.
-/

namespace MathShorthand.Grammar

variable {room : Nat} {ends : List Token → Prop}

/-! ### Bounds -/

/-- The next token ends the bounds of an operator. -/
def EndsBounds (tokens : List Token) : Prop := (nextToken tokens).kind = .ofBody

theorem EndsBounds.stops {tokens : List Token} (ending : EndsBounds tokens) : Stops 0 tokens := by
  rw [Stops, ending]
  exact Nat.le_refl 0

/-- The bounds that are read with `room` levels free. -/
def commaBounds (room : Nat) : List Token → Outcome (List Expr) :=
  readBounds (Expr.readWithin room) .comma .ofBody

def moreCommaBounds (room : Nat) : Expr → List Token → Outcome (List Expr) :=
  readMoreBounds (Expr.readWithin room) .comma .ofBody

theorem commaBounds_of_ends (room : Nat) {tokens : List Token} (ending : EndsBounds tokens) :
    commaBounds room tokens = .done [] tokens :=
  readBounds_of_stop _ _ ending

theorem commaBounds_of_starts (room : Nat) {tokens : List Token} (starts : ¬EndsBounds tokens) :
    commaBounds room tokens =
      (Expr.readWithin room 0 tokens).andThen (moreCommaBounds room) :=
  readBounds_of_starts (takesSome_readWithin room) starts

theorem moreCommaBounds_of_ends (room : Nat) (bound : Expr) {tokens : List Token}
    (ending : EndsBounds tokens) : moreCommaBounds room bound tokens = .done [bound] tokens := by
  unfold moreCommaBounds readMoreBounds
  rw [readSeparator_of_stop _ ending, Outcome.done_andThen, readBounds_of_stop _ _ ending,
    Outcome.done_andThen]

theorem moreCommaBounds_cons (room : Nat) (bound : Expr) (comma : String) (tokens : List Token) :
    moreCommaBounds room bound (⟨.comma, comma⟩ :: tokens) =
      (commaBounds room tokens).andThen fun bounds tokens => .done (bound :: bounds) tokens := by
  unfold moreCommaBounds readMoreBounds
  rw [readSeparator_cons (by decide), Outcome.done_andThen]
  rfl

theorem moreCommaBounds_of_other (room : Nat) (bound : Expr) {tokens : List Token}
    (goes_on : ¬EndsBounds tokens) (other : (nextToken tokens).kind ≠ .comma) :
    moreCommaBounds room bound tokens =
      ⟨.error (.expected .comma (nextToken tokens)), tokens⟩ := by
  have not_ended : (nextToken tokens).kind ≠ .ofBody := goes_on
  unfold moreCommaBounds readMoreBounds
  rw [readSeparator, if_neg not_ended, expectToken, if_neg other]
  rfl

theorem canEnd_moreCommaBounds (room : Nat) (bound : Expr) :
    CanEnd (Stops 0) EndsBounds (moreCommaBounds room bound) :=
  ⟨[], [bound], fun _ ending => ⟨ending.stops, moreCommaBounds_of_ends room bound ending⟩⟩

theorem not_endsBounds_of_read {m : Nat} {tokens rest : List Token} {e : Expr}
    (read : Expr.readWithin room m tokens = .done e rest) : ¬EndsBounds tokens := by
  obtain ⟨d, rfl, -⟩ := (readWithin_eq_done_iff room m tokens e rest).mp read
  exact d.nextToken_ne_ofBody rest

/-- Where bounds do not end, they break off as their first bound and the others do. -/
theorem breaksOff_commaBounds {seen back : List Token} {cause : ParseError}
    (starts : ¬EndsBounds (seen ++ back))
    (broken : BreaksOff ends (fun tokens => (Expr.readWithin room 0 tokens).andThen
      (moreCommaBounds room)) seen back cause) :
    BreaksOff ends (commaBounds room) seen back cause := by
  refine broken.congr (fun tokens => commaBounds_of_starts room) (fun tokens tokens' head => ?_)
    (fun tokens bounds rest read => ?_) starts
  · rw [EndsBounds, EndsBounds, nextToken_of_head? head]
    exact id
  · obtain ⟨bound, mid, first, -⟩ := Outcome.andThen_eq_done read
    exact not_endsBounds_of_read first

/-- Behind a bound nothing but a comma can be missed. -/
theorem locates_moreCommaBounds {n : Nat}
    (others : Locates (fun tokens => tokens.length < n) EndsBounds (commaBounds room))
    (bound : Expr) :
    Locates (fun tokens => Stops 0 tokens ∧ tokens.length < n) EndsBounds
      (moreCommaBounds room bound) := by
  intro tokens cause rest ⟨stops, short⟩ failed not_deep
  by_cases ended : EndsBounds tokens
  · rw [moreCommaBounds_of_ends room bound ended] at failed
    cases congrArg Outcome.result failed
  by_cases found : (nextToken tokens).kind = .comma
  · match tokens, found with
    | ⟨.comma, comma⟩ :: after, _ =>
      rw [moreCommaBounds_cons] at failed
      obtain ⟨seen, back, rfl, broken⟩ :=
        others.andThen_done (bound :: ·) _ _ _ (Nat.lt_of_succ_lt short) failed not_deep
      exact ⟨⟨.comma, comma⟩ :: seen, back, rfl,
        broken.cons (moreCommaBounds_cons room bound comma)⟩
  · rw [moreCommaBounds_of_other room bound ended found] at failed
    cases failed
    refine ⟨[], tokens, rfl, .expected (.inr rfl) stops found (fun back' head => ?_)
      (canEnd_moreCommaBounds room bound)⟩
    rw [← nextToken_of_head? head] at found
    rw [EndsBounds, ← nextToken_of_head? head] at ended
    exact moreCommaBounds_of_other room bound ended found

theorem locates_commaBounds
    (operand : Locates (fun _ => True) (Stops 0) (Expr.readWithin room 0)) (n : Nat) :
    Locates (fun tokens => tokens.length < n) EndsBounds (commaBounds room) := by
  -- every bound takes a token, so there are fewer of them for the bounds behind it
  induction n with
  | zero => exact fun _ _ _ short => absurd short (Nat.not_lt_zero _)
  | succ n ih =>
    have locates : Locates (fun tokens => tokens.length < n + 1) EndsBounds fun tokens =>
        (Expr.readWithin room 0 tokens).andThen (moreCommaBounds room) := by
      refine Locates.andThen (readsAgain_readWithin room 0)
        (fun tokens cause rest _ => operand tokens cause rest trivial) ?_
        (canEnd_moreCommaBounds room) (locates_moreCommaBounds ih)
      intro tokens bound rest short read
      have shorter := takesSome_readWithin room _ _ _ _ read
      exact ⟨stops_of_read read, by omega⟩
    intro tokens cause rest short failed not_deep
    by_cases ended : EndsBounds tokens
    · rw [commaBounds_of_ends room ended] at failed
      cases congrArg Outcome.result failed
    · rw [commaBounds_of_starts room ended] at failed
      obtain ⟨seen, back, rfl, broken⟩ := locates _ _ _ short failed not_deep
      exact ⟨seen, back, rfl, breaksOff_commaBounds ended broken⟩

/-- Bounds, and the token that ends them. -/
def closedBounds (room : Nat) (tokens : List Token) : Outcome (List Expr) :=
  (commaBounds room tokens).andThen fun bounds tokens =>
  (expectToken .ofBody tokens).andThen fun _ tokens => .done bounds tokens

/-- The token that ends bounds is never missed, because bounds go on until it comes. -/
theorem closedBounds_of_read {tokens rest : List Token} {bounds : List Expr}
    (read : commaBounds room tokens = .done bounds rest) :
    ∃ stop after, rest = ⟨.ofBody, stop⟩ :: after ∧
      closedBounds room tokens = .done bounds after := by
  have ended := nextToken_of_readBounds (takesSome_readWithin room) read
  match rest, ended with
  | ⟨.ofBody, stop⟩ :: after, _ =>
    refine ⟨stop, after, rfl, ?_⟩
    rw [closedBounds, read, Outcome.done_andThen, expectToken_cons, Outcome.done_andThen]

theorem readsAgain_closedBounds (room : Nat) : ReadsAgain (closedBounds room) := by
  intro tokens bounds rest read
  obtain ⟨bounds', mid, inside, -⟩ := Outcome.andThen_eq_done read
  obtain ⟨stop, after, rfl, closed⟩ := closedBounds_of_read inside
  obtain ⟨rfl, rfl⟩ := Outcome.done_inj (read.symm.trans closed)
  obtain ⟨bs, rfl, longest, rfl⟩ := bounds_of_read (derivable_of_read room).1 inside rfl
  have le := (bs.read_takes room longest _ (by rw [List.length_append]; omega)).le_of_done inside
  refine ⟨bs.tokens ++ [⟨.ofBody, stop⟩], by simp, fun rest' _ => ?_⟩
  have longest' : bs.Longest (⟨.ofBody, stop⟩ :: rest') :=
    bs.longest_loosen longest (Nat.le_refl _)
  have again : commaBounds room (bs.tokens ++ ⟨.ofBody, stop⟩ :: rest') =
      .done bs.trees (⟨.ofBody, stop⟩ :: rest') :=
    (bs.read_takes room longest' _ (by rw [List.length_append]; omega)).1 le
  obtain ⟨stop', after', same, closed'⟩ := closedBounds_of_read again
  cases same
  rw [List.append_assoc]
  exact closed'

theorem locates_closedBounds
    (operand : Locates (fun _ => True) (Stops 0) (Expr.readWithin room 0)) :
    Locates (fun _ => True) (Stops 0) (closedBounds room) := by
  intro tokens cause rest _ failed not_deep
  cases inside : commaBounds room tokens with
  | mk result mid =>
    cases result with
    | ok bounds =>
      obtain ⟨stop, after, -, closed⟩ := closedBounds_of_read inside
      cases congrArg Outcome.result (failed.symm.trans closed)
    | error cause' =>
      rw [closedBounds, inside] at failed
      cases failed
      obtain ⟨seen, back, split, broken⟩ :=
        locates_commaBounds operand _ _ _ _ (Nat.lt_succ_self _) inside not_deep
      refine ⟨seen, back, split, broken.andThen fun bounds => ?_⟩
      exact (canEnd_expectToken .ofBody fun _ => rfl).andThen fun _ => canEnd_done bounds

/-! ### The rules -/

/-- Every operand that cannot be read breaks off. -/
def LocatesOperands (room : Nat) : Prop :=
  ∀ m, Locates (fun _ => True) (Stops 0) (Expr.readWithin room m)

theorem locates_group (operands : LocatesOperands room) (token : Token) :
    Locates (fun _ => True) (Stops 0)
      ((PrefixRule.group .rightParen).read (Expr.readWithin room) token) := by
  refine Locates.andThen (readsAgain_readWithin room 0) (operands 0)
    (fun _ _ _ _ read => stops_of_read read) (fun inner => ?_) (fun inner => ?_)
  · exact (canEnd_expectToken .rightParen fun _ => Nat.le_refl 0).andThen fun _ => canEnd_done inner
  · exact locates_closing.andThen_done fun _ => inner

theorem read_bounded_eq (room : Nat) (token : Token) (tokens : List Token) :
    (PrefixRule.bounded .comma .ofBody).read (Expr.readWithin room) token tokens =
      (closedBounds room tokens).andThen fun bounds tokens =>
      (Expr.readWithin room 0 tokens).andThen fun body tokens =>
      .done (.bounded token.kind bounds body) tokens := by
  rw [closedBounds, Outcome.andThen_assoc]
  refine Outcome.andThen_congr fun bounds rest _ => ?_
  rw [Outcome.andThen_assoc]
  rfl

/-- Without a level for its body nothing over bounds can be read, and it is too deep if anything. -/
theorem eq_tooDeep_of_read_bounded {token : Token} {tokens rest : List Token} {cause : ParseError}
    (failed : (PrefixRule.bounded .comma .ofBody).read (Expr.readWithin 0) token tokens =
      ⟨.error cause, rest⟩) : cause = .tooDeep := by
  rw [read_bounded_eq] at failed
  by_cases ended : EndsBounds tokens
  · obtain ⟨stop, after, -, closed⟩ := closedBounds_of_read (commaBounds_of_ends 0 ended)
    rw [closed] at failed
    cases failed
    rfl
  · rw [closedBounds, commaBounds_of_starts 0 ended] at failed
    cases failed
    rfl

theorem locates_bounded (operands : LocatesOperands room) (token : Token) :
    Locates (fun _ => True) (Stops 0)
      ((PrefixRule.bounded .comma .ofBody).read (Expr.readWithin room) token) := by
  cases room with
  | zero =>
    intro tokens cause rest _ failed not_deep
    exact absurd (eq_tooDeep_of_read_bounded failed) not_deep
  | succ room =>
    rw [funext (read_bounded_eq (room + 1) token)]
    refine Locates.andThen (readsAgain_closedBounds (room + 1)) (locates_closedBounds (operands 0))
      (fun _ _ _ _ _ => trivial) (fun bounds => ?_) (fun bounds => ?_)
    · exact (canEnd_readWithin room 0).andThen fun body =>
        canEnd_done (Expr.bounded token.kind bounds body)
    · exact (operands 0).andThen_done (Expr.bounded token.kind bounds)

theorem locates_prefixRule (operands : LocatesOperands room) {token : Token} {rule : PrefixRule}
    (role : token.kind.prefixRule? = some rule) :
    Locates (fun _ => True) (Stops 0) (rule.read (Expr.readWithin room) token) := by
  cases rule with
  | name => exact locates_done _
  | group close =>
    obtain ⟨-, rfl⟩ := (prefixRule?_eq_group_iff _ close).mp role
    exact locates_group operands token
  | operator p => exact (operands p.rank).andThen_done (Expr.prefixed token.kind)
  | bounded separator terminator =>
    obtain ⟨-, rfl, rfl⟩ := (prefixRule?_eq_bounded_iff _ _ _).mp role
    exact locates_bounded operands token

theorem locates_infixRule (operands : LocatesOperands room) (rule : InfixRule) (left : Expr)
    (op : Token) :
    Locates (fun _ => True) (Stops 0) (rule.read (Expr.readWithin room) left op) := by
  cases rule with
  | binary p a => exact (operands (a.rightRank p)).andThen_done (Expr.binary op.kind left)
  | postfixed p => exact locates_done _

theorem breaksOff_of_no_rule {m : Nat} {back : List Token}
    (no_rule : (nextToken back).kind.prefixRule? = none) :
    BreaksOff (Stops 0) (Expr.readWithin (room + 1) m) [] back
      (.unexpected (nextToken back)) where
  alike back' head := by
    rw [← nextToken_of_head? head] at no_rule ⊢
    exact ⟨back'.tail, .unexpected no_rule, by simp only [List.nil_append, Expr.readWithin, no_rule]⟩
  can_end := canEnd_readWithin room m

/-- Within any number of levels, every failure that is not too deep breaks off. -/
theorem locates_within (room : Nat) :
    LocatesOperands room ∧
      ∀ m left, Locates (fun _ => True) (Stops 0) (Expr.continueWithin room m left) := by
  induction room with
  | zero =>
    refine ⟨fun m tokens cause rest _ failed not_deep => ?_,
      fun m left tokens cause rest _ failed not_deep => ?_⟩
    · cases failed
      exact absurd rfl not_deep
    -- without a level left nothing is missed but a level
    · unfold Expr.continueWithin at failed
      split at failed
      · cases congrArg Outcome.result failed
      · cases failed
        exact absurd rfl not_deep
  | succ room ih =>
    obtain ⟨operands, continues⟩ := ih
    refine ⟨fun m tokens cause rest _ failed not_deep => ?_,
      fun m left tokens cause rest _ failed not_deep => ?_⟩
    · cases found : (nextToken tokens).kind.prefixRule? with
      | none =>
        simp only [Expr.readWithin, found] at failed
        cases failed
        exact ⟨[], tokens, rfl, breaksOff_of_no_rule found⟩
      | some rule =>
        obtain ⟨token, after, rfl, role⟩ := prefixRule?_nextToken found
        have whole := Locates.andThen (readsAgain_prefixRule role room)
          (locates_prefixRule operands role) (fun _ _ _ _ _ => trivial)
          (canEnd_continueWithin room m) (continues m)
        rw [Expr.readWithin_cons role] at failed
        obtain ⟨seen, back, rfl, broken⟩ := whole _ _ _ trivial failed not_deep
        exact ⟨token :: seen, back, rfl, broken.cons (Expr.readWithin_cons role room m)⟩
    · cases goes : continuation? m tokens with
      | none =>
        have stops := (continuation?_eq_none_iff m tokens).mp goes
        rw [Expr.continueWithin_of_stops stops] at failed
        cases congrArg Outcome.result failed
      | some rule =>
        obtain ⟨op, after, rfl, role, tighter⟩ := continuation?_eq_some goes
        -- a link of a chain is read like a start, with the chain so far as its left operand
        have whole := Locates.andThen (readsAgain_infixRule rule room left op)
          (locates_infixRule operands rule left op) (fun _ _ _ _ _ => trivial)
          (canEnd_continueWithin room m) (continues m)
        have same (tokens : List Token) := Expr.continueWithin_cons role tighter room left tokens
        rw [same] at failed
        obtain ⟨seen, back, rfl, broken⟩ := whole _ _ _ trivial failed not_deep
        exact ⟨op :: seen, back, rfl, broken.cons same⟩

end MathShorthand.Grammar
