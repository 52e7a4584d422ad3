import MathShorthand.Proofs.Grammar.Reading

/-!
# Deriving what is read

Every expression that is read has a derivation. The reader is taken apart rule by rule for any way
to read operands that have derivations, and an induction on the free levels closes the circle.
-/

namespace MathShorthand

namespace Outcome

variable {α β : Type} {o : Outcome α} {a : α} {b : β} {rest : List Token}
  {next : α → List Token → Outcome β}

theorem andThen_eq_done (read : o.andThen next = .done b rest) :
    ∃ a mid, o = .done a mid ∧ next a mid = .done b rest := by
  obtain ⟨_ | a, mid⟩ := o
  · cases congrArg Outcome.result read
  · exact ⟨a, mid, rfl, read⟩

theorem done_inj {a' : α} {rest' : List Token} (same : done a rest = done a' rest') :
    a = a' ∧ rest = rest' :=
  ⟨Except.ok.inj (congrArg Outcome.result same), congrArg Outcome.rest same⟩

end Outcome

theorem expectToken_eq_done {wanted : Kind} {tokens rest : List Token} {t : Token}
    (taken : expectToken wanted tokens = .done t rest) (not_eof : wanted ≠ .eof) :
    ∃ text, tokens = ⟨wanted, text⟩ :: rest := by
  unfold expectToken at taken
  split at taken
  · next kind =>
    cases tokens with
    | nil => exact absurd kind.symm not_eof
    | cons next tokens =>
      obtain ⟨kind', text⟩ := next
      obtain ⟨-, rfl⟩ := Outcome.done_inj taken
      obtain rfl : kind' = wanted := kind
      exact ⟨text, rfl⟩
  · cases congrArg Outcome.result taken

theorem readSeparator_eq_done {separator terminator : Kind} {tokens rest : List Token}
    (read : readSeparator separator terminator tokens = .done () rest)
    (not_eof : separator ≠ .eof) :
    ((nextToken tokens).kind = terminator ∧ rest = tokens) ∨
      ∃ text, tokens = ⟨separator, text⟩ :: rest := by
  unfold readSeparator at read
  split at read
  · next stop => exact .inl ⟨stop, (Outcome.done_inj read).2.symm⟩
  · obtain ⟨t, mid, taken, same⟩ := Outcome.andThen_eq_done read
    obtain ⟨-, rfl⟩ := Outcome.done_inj same
    exact .inr (expectToken_eq_done taken not_eof)

namespace Grammar

/-- The front of `tokens` up to `rest` has a derivation with the tree `e`. -/
def Derivable (m : Nat) (tokens : List Token) (e : Expr) (rest : List Token) : Prop :=
  ∃ d : Phrase m, tokens = d.tokens ++ rest ∧ d.Longest rest ∧ d.tree = e

/-- Every operand that is read has a derivation. -/
def ReadsDerivable (operand : OperandReader) : Prop :=
  ∀ m tokens e rest, operand m tokens = .done e rest → Derivable m tokens e rest

variable {operand : OperandReader}

theorem bounds_of_read (derivable : ReadsDerivable operand) {limit : Nat} {tokens rest : List Token}
    {es : List Expr}
    (read : readBoundsWithin operand .comma .ofBody limit tokens = .done es rest)
    (stop : (nextToken rest).kind = .ofBody) :
    ∃ bs : Bounds, tokens = bs.tokens ++ rest ∧ bs.Longest rest ∧ bs.trees = es := by
  induction limit generalizing tokens es with
  | zero =>
    obtain ⟨rfl, rfl⟩ := Outcome.done_inj read
    exact ⟨.none, rfl, trivial, rfl⟩
  | succ limit ih =>
    unfold readBoundsWithin at read
    split at read
    · obtain ⟨rfl, rfl⟩ := Outcome.done_inj read
      exact ⟨.none, rfl, trivial, rfl⟩
    · obtain ⟨e, after, first, read⟩ := Outcome.andThen_eq_done read
      obtain ⟨_, others, parted, read⟩ := Outcome.andThen_eq_done read
      obtain ⟨es', rest', then_, same⟩ := Outcome.andThen_eq_done read
      obtain ⟨rfl, rfl⟩ := Outcome.done_inj same
      obtain ⟨d, rfl, longest, rfl⟩ := derivable _ _ _ _ first
      rcases readSeparator_eq_done parted (by decide) with ⟨ended, rfl⟩ | ⟨comma, rfl⟩
      · rw [readBoundsWithin_of_stop _ _ _ ended] at then_
        obtain ⟨rfl, rfl⟩ := Outcome.done_inj then_
        exact ⟨.last d, rfl, longest, rfl⟩
      · obtain ⟨bs, rfl, longest_others, rfl⟩ := ih then_
        exact ⟨.more d comma bs, by simp [Bounds.tokens], ⟨longest, longest_others⟩, rfl⟩

theorem head_of_read (derivable : ReadsDerivable operand) {rule : PrefixRule} {token : Token}
    (role : token.kind.prefixRule? = some rule) {tokens rest : List Token} {e : Expr}
    (read : rule.read operand token tokens = .done e rest) :
    ∃ h : Head, h.first = token ∧ tokens = h.others ++ rest ∧ h.Longest rest ∧ h.tree = e := by
  cases rule with
  | name =>
    obtain ⟨kind, text⟩ := token
    obtain rfl := (prefixRule?_eq_name_iff kind).mp role
    obtain ⟨rfl, rfl⟩ := Outcome.done_inj read
    exact ⟨.name text, rfl, rfl, trivial, rfl⟩
  | group close =>
    obtain ⟨kind, opening⟩ := token
    obtain ⟨rfl, rfl⟩ := (prefixRule?_eq_group_iff kind close).mp role
    obtain ⟨e', after, inside, read⟩ := Outcome.andThen_eq_done read
    obtain ⟨t, rest', closed, same⟩ := Outcome.andThen_eq_done read
    obtain ⟨rfl, rfl⟩ := Outcome.done_inj same
    obtain ⟨closing, rfl⟩ := expectToken_eq_done closed (by decide)
    obtain ⟨d, rfl, longest, rfl⟩ := derivable _ _ _ _ inside
    exact ⟨.group opening d closing, rfl, by simp [Head.others], longest, rfl⟩
  | operator p =>
    obtain ⟨sign, rfl⟩ := (prefixRule?_eq_operator_iff _ p).mp role
    obtain ⟨e', rest', inside, same⟩ := Outcome.andThen_eq_done read
    obtain ⟨rfl, rfl⟩ := Outcome.done_inj same
    obtain ⟨d, rfl, longest, rfl⟩ := derivable _ _ _ _ inside
    exact ⟨.signed token sign d, rfl, rfl, longest, rfl⟩
  | bounded separator terminator =>
    obtain ⟨binder, rfl, rfl⟩ := (prefixRule?_eq_bounded_iff _ _ _).mp role
    obtain ⟨es, after, bounds_read, read⟩ := Outcome.andThen_eq_done read
    obtain ⟨t, mid, stopped, read⟩ := Outcome.andThen_eq_done read
    obtain ⟨e', rest', body_read, same⟩ := Outcome.andThen_eq_done read
    obtain ⟨rfl, rfl⟩ := Outcome.done_inj same
    obtain ⟨stop, rfl⟩ := expectToken_eq_done stopped (by decide)
    obtain ⟨d, rfl, longest, rfl⟩ := derivable _ _ _ _ body_read
    obtain ⟨bs, rfl, longest_bounds, rfl⟩ := bounds_of_read derivable bounds_read rfl
    exact ⟨.bound token binder bs stop d, rfl, by simp [Head.others], ⟨longest_bounds, longest⟩,
      rfl⟩

theorem links_of_read (derivable : ReadsDerivable operand) {m : Nat} {rule : InfixRule}
    {op : Token} (role : op.kind.infixRule? = some rule) (tighter : m < rule.precedence.rank)
    {left e : Expr} {tokens after rest : List Token}
    (read : rule.read operand left op tokens = .done e after) (others : Links m)
    (spelled : after = others.tokens ++ rest) (longest_others : others.Longest rest) :
    ∃ ls : Links m, op :: tokens = ls.tokens ++ rest ∧ ls.Longest rest ∧
      ls.tree left = others.tree e := by
  subst spelled
  cases rule with
  | binary p a =>
    obtain ⟨e', after, operand_read, same⟩ := Outcome.andThen_eq_done read
    obtain ⟨rfl, rfl⟩ := Outcome.done_inj same
    have found := derivable _ _ _ _ operand_read
    cases a with
    | left =>
      obtain ⟨d, rfl, longest, rfl⟩ : Derivable p.rank _ _ _ := found
      have listed := (mem_leftOperators_iff op.kind p.rank).mpr ⟨p, role, rfl⟩
      exact ⟨.left op listed tighter d others, by simp [Links.tokens], ⟨longest, longest_others⟩,
        rfl⟩
    | right =>
      obtain ⟨d, rfl, longest, rfl⟩ : Derivable (p.rank - 1) _ _ _ := found
      have listed := (mem_rightOperators_iff op.kind p.rank).mpr ⟨p, role, rfl⟩
      exact ⟨.right op listed tighter d others, by simp [Links.tokens],
        ⟨longest, longest_others⟩, rfl⟩
  | postfixed p =>
    obtain ⟨listed, rfl⟩ := (infixRule?_eq_postfixed_iff _ p).mp role
    obtain ⟨rfl, rfl⟩ := Outcome.done_inj read
    exact ⟨.mark op listed tighter others, rfl, longest_others, rfl⟩

theorem prefixRule?_nextToken {tokens : List Token} {rule : PrefixRule}
    (role : (nextToken tokens).kind.prefixRule? = some rule) :
    ∃ token after, tokens = token :: after ∧ token.kind.prefixRule? = some rule := by
  cases tokens with
  | nil => cases role
  | cons token after => exact ⟨token, after, rfl, role⟩

theorem continuation?_eq_some {rank : Nat} {tokens : List Token} {rule : InfixRule}
    (goes : continuation? rank tokens = some rule) :
    ∃ op after, tokens = op :: after ∧ op.kind.infixRule? = some rule ∧
      rank < rule.precedence.rank := by
  obtain ⟨role, tighter⟩ := Option.filter_eq_some_iff.mp goes
  cases tokens with
  | nil => cases role
  | cons op after => exact ⟨op, after, rfl, role, of_decide_eq_true tighter⟩

/-- The rest of a chain that has made `left` so far has a derivation with the tree `e`. -/
def ChainDerivable (m : Nat) (left : Expr) (tokens : List Token) (e : Expr) (rest : List Token) :
    Prop :=
  ∃ ls : Links m, tokens = ls.tokens ++ rest ∧ ls.Longest rest ∧ Stops m rest ∧ ls.tree left = e

theorem chainDerivable_of_none {room m : Nat} {left e : Expr} {tokens rest : List Token}
    (none : continuation? m tokens = none)
    (read : Expr.continueWithin room m left tokens = .done e rest) :
    ChainDerivable m left tokens e rest := by
  have stops := (continuation?_eq_none_iff m tokens).mp none
  rw [Expr.continueWithin_of_stops stops] at read
  obtain ⟨rfl, rfl⟩ := Outcome.done_inj read
  exact ⟨.nil, rfl, trivial, stops, rfl⟩

/-- All that is read within any number of levels has a derivation. -/
theorem derivable_of_read (room : Nat) :
    ReadsDerivable (Expr.readWithin room) ∧
      ∀ m left tokens e rest, Expr.continueWithin room m left tokens = .done e rest →
        ChainDerivable m left tokens e rest := by
  induction room with
  | zero =>
    refine ⟨fun m tokens e rest read => ?_, fun m left tokens e rest read => ?_⟩
    · cases congrArg Outcome.result read
    · cases goes : continuation? m tokens with
      | none => exact chainDerivable_of_none goes read
      | some rule =>
        simp only [Expr.continueWithin, goes] at read
        cases congrArg Outcome.result read
  | succ room ih =>
    obtain ⟨reads, continues⟩ := ih
    refine ⟨fun m tokens e rest read => ?_, fun m left tokens e rest read => ?_⟩
    · unfold Expr.readWithin at read
      split at read
      · cases congrArg Outcome.result read
      · next rule role =>
        obtain ⟨token, after, rfl, role⟩ := prefixRule?_nextToken role
        obtain ⟨left, mid, first, read⟩ := Outcome.andThen_eq_done read
        obtain ⟨ls, rfl, longest_links, stops, rfl⟩ := continues _ _ _ _ _ read
        obtain ⟨h, rfl, spelled, longest, rfl⟩ := head_of_read reads role first
        rw [List.tail_cons] at spelled
        subst spelled
        exact ⟨.mk h ls, by simp [Phrase.tokens], ⟨longest, longest_links, stops⟩, rfl⟩
    · cases goes : continuation? m tokens with
      | none => exact chainDerivable_of_none goes read
      | some rule =>
        simp only [Expr.continueWithin, goes] at read
        obtain ⟨op, after, rfl, role, tighter⟩ := continuation?_eq_some goes
        obtain ⟨e', mid, first, read⟩ := Outcome.andThen_eq_done read
        obtain ⟨others, rfl, longest_others, stops, rfl⟩ := continues _ _ _ _ _ read
        obtain ⟨ls, spelled, longest, same⟩ := links_of_read reads role tighter first others rfl
          longest_others
        exact ⟨ls, spelled, longest, stops, same⟩

end Grammar

end MathShorthand
