import MathShorthand.Proofs.Grammar.Accepted

/-!
# What follows an expression

Where an expression ends hangs on one token behind it, and of that only on how tightly it binds. So
whatever is read is read again in front of other tokens, if the first of them binds no tighter
(`readsAgain_readWithin`).
-/

namespace MathShorthand.Grammar

/-- The first of these tokens binds no tighter than the first of those. -/
def NoTighter (these those : List Token) : Prop :=
  (nextToken these).kind.precedence ≤ (nextToken those).kind.precedence

theorem nextToken_of_head? {rest rest' : List Token} (same : rest'.head? = rest.head?) :
    nextToken rest' = nextToken rest := by
  rw [nextToken, nextToken, List.headD_eq_head?_getD, List.headD_eq_head?_getD, same]

theorem NoTighter.of_head? {rest rest' : List Token} (same : rest'.head? = rest.head?) :
    NoTighter rest' rest :=
  Nat.le_of_eq (congrArg (fun t : Token => t.kind.precedence) (nextToken_of_head? same))

theorem NoTighter.of_stops {rest' : List Token} (stops : Stops 0 rest') (rest : List Token) :
    NoTighter rest' rest :=
  Nat.le_trans stops (Nat.zero_le _)

theorem NoTighter.append {rest rest' : List Token} (loose : NoTighter rest' rest)
    (front : List Token) : NoTighter (front ++ rest') (front ++ rest) := by
  cases front with
  | nil => exact loose
  | cons t front => exact Nat.le_refl _

theorem Stops.loosen {m : Nat} {rest rest' : List Token} (stops : Stops m rest)
    (loose : NoTighter rest' rest) : Stops m rest' :=
  Nat.le_trans loose stops

mutual

/-- A derivation may end in front of anything that binds no tighter than what it ends in front of. -/
theorem Phrase.longest_loosen {m : Nat} (d : Phrase m) {rest rest' : List Token}
    (longest : d.Longest rest) (loose : NoTighter rest' rest) : d.Longest rest' := by
  match d with
  | .mk head links =>
    obtain ⟨longest_head, longest_links, stops⟩ := longest
    exact ⟨head.longest_loosen longest_head (loose.append links.tokens),
      links.longest_loosen longest_links loose, stops.loosen loose⟩

theorem Head.longest_loosen (h : Head) {rest rest' : List Token} (longest : h.Longest rest)
    (loose : NoTighter rest' rest) : h.Longest rest' := by
  cases h with
  | name text => exact trivial
  | group opening inner closing => exact inner.longest_loosen longest (Nat.le_refl _)
  | signed op sign operand => exact operand.longest_loosen longest loose
  | bound op binder bounds stop body =>
    obtain ⟨longest_bounds, longest_body⟩ := longest
    exact ⟨bounds.longest_loosen longest_bounds (Nat.le_refl _),
      body.longest_loosen longest_body loose⟩

theorem Bounds.longest_loosen (bs : Bounds) {rest rest' : List Token} (longest : bs.Longest rest)
    (loose : NoTighter rest' rest) : bs.Longest rest' := by
  cases bs with
  | none => exact trivial
  | last bound => exact bound.longest_loosen longest loose
  | more bound comma others =>
    obtain ⟨longest_bound, longest_others⟩ := longest
    exact ⟨bound.longest_loosen longest_bound (Nat.le_refl _),
      others.longest_loosen longest_others loose⟩

theorem Links.longest_loosen {m : Nat} (ls : Links m) {rest rest' : List Token}
    (longest : ls.Longest rest) (loose : NoTighter rest' rest) : ls.Longest rest' := by
  match ls with
  | .nil => exact trivial
  | .left op listed tighter right others | .right op listed tighter right others =>
    obtain ⟨longest_right, longest_others⟩ := longest
    exact ⟨right.longest_loosen longest_right (loose.append others.tokens),
      others.longest_loosen longest_others loose⟩
  | .mark op listed tighter others => exact others.longest_loosen longest loose

end

/-! ### Reading again in front of other tokens -/

/-- `read` gives `a` for the tokens `front` in front of whatever binds no tighter than `rest`. -/
def Reads {α : Type} (read : List Token → Outcome α) (front : List Token) (a : α)
    (rest : List Token) : Prop :=
  ∀ rest', NoTighter rest' rest → read (front ++ rest') = .done a rest'

/-- Whatever `read` reads, it reads in front of other tokens as well. -/
def ReadsAgain {α : Type} (read : List Token → Outcome α) : Prop :=
  ∀ tokens a rest, read tokens = .done a rest →
    ∃ front, tokens = front ++ rest ∧ Reads read front a rest

theorem readsAgain_readWithin (room m : Nat) : ReadsAgain (Expr.readWithin room m) := by
  intro tokens e rest read
  obtain ⟨d, rfl, longest, rfl, le⟩ := (readWithin_eq_done_iff room m tokens e rest).mp read
  exact ⟨d.tokens, rfl, fun rest' loose =>
    (d.read_takes room (d.longest_loosen longest loose)).1 le⟩

theorem stops_of_read {room m : Nat} {tokens rest : List Token} {e : Expr}
    (read : Expr.readWithin room m tokens = .done e rest) : Stops m rest := by
  obtain ⟨d, -, longest, -⟩ := (readWithin_eq_done_iff room m tokens e rest).mp read
  exact Phrase.stops longest

theorem readsAgain_prefixRule {token : Token} {rule : PrefixRule}
    (role : token.kind.prefixRule? = some rule) (room : Nat) :
    ReadsAgain (rule.read (Expr.readWithin room) token) := by
  intro tokens e rest read
  obtain ⟨h, rfl, rfl, longest, rfl⟩ := head_of_read (derivable_of_read room).1 role read
  obtain rfl : h.rule = rule := Option.some.inj (h.prefixRule?_first.symm.trans role)
  have le := (h.read_takes room longest).le_of_done read
  exact ⟨h.others, rfl, fun rest' loose =>
    (h.read_takes room (h.longest_loosen longest loose)).1 le⟩

theorem readsAgain_infixRule (rule : InfixRule) (room : Nat) (left : Expr) (op : Token) :
    ReadsAgain (rule.read (Expr.readWithin room) left op) := by
  intro tokens e rest read
  cases rule with
  | binary p a =>
    obtain ⟨right, mid, operand, same⟩ := Outcome.andThen_eq_done read
    obtain ⟨rfl, rfl⟩ := Outcome.done_inj same
    obtain ⟨front, rfl, reads⟩ := readsAgain_readWithin _ _ _ _ _ operand
    refine ⟨front, rfl, fun rest' loose => ?_⟩
    rw [InfixRule.read, reads rest' loose, Outcome.done_andThen]
  | postfixed p =>
    obtain ⟨rfl, rfl⟩ := Outcome.done_inj read
    exact ⟨[], rfl, fun _ _ => rfl⟩

end MathShorthand.Grammar
