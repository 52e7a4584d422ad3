import MathShorthand.Proofs.Grammar.Phrase

/-!
# Reading what a derivation spells

The reader finds its way back to every derivation in which expressions are as long as they can be.
It gives the tree if the levels of the derivation are free, and finds the tokens nested too deep
if they are not.
-/

namespace MathShorthand

/-- With `room` levels free, the outcome is `a` if no more than `levels` are taken, and too deep
otherwise. -/
def Outcome.Takes {α : Type} (o : Outcome α) (levels room : Nat) (a : α) (rest : List Token) :
    Prop :=
  (levels ≤ room → o = .done a rest) ∧ (room < levels → o.result = .error .tooDeep)

namespace Outcome

variable {α β : Type} {o : Outcome α} {levels levels' room : Nat} {a : α} {b : β}
  {rest rest' : List Token} {next : α → List Token → Outcome β}

theorem done_takes (room : Nat) (a : α) (rest : List Token) :
    (done a rest).Takes 0 room a rest :=
  ⟨fun _ => rfl, fun lt => absurd lt (Nat.not_lt_zero room)⟩

@[simp] theorem done_andThen (a : α) (rest : List Token) (next : α → List Token → Outcome β) :
    (done a rest).andThen next = next a rest := rfl

theorem result_andThen_of_error {e : ParseError} (failed : o.result = .error e) :
    (o.andThen next).result = .error e := by
  obtain ⟨result, rest⟩ := o
  subst failed
  rfl

theorem Takes.andThen (first : o.Takes levels room a rest)
    (then_ : (next a rest).Takes levels' room b rest') :
    (o.andThen next).Takes (max levels levels') room b rest' := by
  constructor
  · intro le
    have ⟨le₁, le₂⟩ := Nat.max_le.mp le
    rw [first.1 le₁, done_andThen]
    exact then_.1 le₂
  · intro lt
    by_cases deep : room < levels
    · exact result_andThen_of_error (first.2 deep)
    · rw [first.1 (Nat.le_of_not_lt deep), done_andThen]
      exact then_.2 (by omega)

theorem Takes.andThen_done (first : o.Takes levels room a rest) (f : α → β) :
    (o.andThen fun a rest => .done (f a) rest).Takes levels room (f a) rest := by
  rw [← Nat.max_zero levels]
  exact first.andThen (done_takes room (f a) rest)

theorem Takes.le_of_done {a' : α} (takes : o.Takes levels room a rest) (read : o = done a' rest') :
    levels ≤ room := by
  refine Nat.le_of_not_lt fun deep => ?_
  have refused := takes.2 deep
  rw [read] at refused
  cases refused

theorem Takes.succ (inside : o.Takes levels room a rest) :
    o.Takes (levels + 1) (room + 1) a rest :=
  ⟨fun le => inside.1 (Nat.le_of_succ_le_succ le), fun lt => inside.2 (Nat.lt_of_succ_lt_succ lt)⟩

end Outcome

@[simp] theorem nextToken_cons (t : Token) (tokens : List Token) :
    nextToken (t :: tokens) = t := rfl

theorem expectToken_cons {wanted : Kind} (text : String) (tokens : List Token) :
    expectToken wanted (⟨wanted, text⟩ :: tokens) = .done ⟨wanted, text⟩ tokens := by
  simp [expectToken, Outcome.done]

theorem continuation?_eq_none_iff (rank : Nat) (tokens : List Token) :
    continuation? rank tokens = none ↔ Grammar.Stops rank tokens := by
  unfold continuation? Grammar.Stops Kind.precedence
  cases (nextToken tokens).kind.infixRule? <;> simp

theorem continuation?_cons {rank : Nat} {op : Token} {rule : InfixRule}
    (role : op.kind.infixRule? = some rule) (tighter : rank < rule.precedence.rank)
    (tokens : List Token) : continuation? rank (op :: tokens) = some rule := by
  simp [continuation?, role, tighter]

theorem readSeparator_of_stop {terminator : Kind} {tokens : List Token} (separator : Kind)
    (stop : (nextToken tokens).kind = terminator) :
    readSeparator separator terminator tokens = .done () tokens := by
  rw [readSeparator, if_pos stop]

theorem readSeparator_cons {separator terminator : Kind} (differ : separator ≠ terminator)
    (text : String) (tokens : List Token) :
    readSeparator separator terminator (⟨separator, text⟩ :: tokens) = .done () tokens := by
  simp [readSeparator, differ, expectToken_cons]

theorem readBoundsWithin_of_stop {terminator : Kind} {tokens : List Token}
    (operand : OperandReader) (separator : Kind) (limit : Nat)
    (stop : (nextToken tokens).kind = terminator) :
    readBoundsWithin operand separator terminator limit tokens = .done [] tokens := by
  cases limit with
  | zero => rfl
  | succ limit => rw [readBoundsWithin, if_pos stop]

theorem readBoundsWithin_takes {operand : OperandReader} {separator terminator : Kind}
    {limit levels levels' room : Nat} {bound : Expr} {bounds : List Expr}
    {tokens after others rest : List Token} (starts : (nextToken tokens).kind ≠ terminator)
    (first : (operand 0 tokens).Takes levels room bound after)
    (parted : readSeparator separator terminator after = .done () others)
    (then_ : (readBoundsWithin operand separator terminator limit others).Takes levels' room bounds
      rest) :
    (readBoundsWithin operand separator terminator (limit + 1) tokens).Takes (max levels levels')
      room (bound :: bounds) rest := by
  rw [readBoundsWithin, if_neg starts]
  refine first.andThen ?_
  rw [parted, Outcome.done_andThen]
  exact then_.andThen_done (bound :: ·)

namespace Expr

theorem readWithin_cons {rule : PrefixRule} {token : Token}
    (role : token.kind.prefixRule? = some rule) (room rank : Nat) (tokens : List Token) :
    readWithin (room + 1) rank (token :: tokens) =
      (rule.read (readWithin room) token tokens).andThen (continueWithin room rank) := by
  simp [readWithin, role]

theorem continueWithin_of_stops {rank : Nat} {tokens : List Token}
    (stops : Grammar.Stops rank tokens) (room : Nat) (left : Expr) :
    continueWithin room rank left tokens = .done left tokens := by
  have none := (continuation?_eq_none_iff rank tokens).mpr stops
  cases room <;> simp [continueWithin, none]

theorem continueWithin_cons {rank : Nat} {op : Token} {rule : InfixRule}
    (role : op.kind.infixRule? = some rule) (tighter : rank < rule.precedence.rank) (room : Nat)
    (left : Expr) (tokens : List Token) :
    continueWithin (room + 1) rank left (op :: tokens) =
      (rule.read (readWithin room) left op tokens).andThen (continueWithin room rank) := by
  simp [continueWithin, continuation?_cons role tighter tokens]

/-- A link of a chain takes one level more than its operand and the links after it. -/
theorem continueWithin_takes {rank room levels : Nat} {op : Token} {rule : InfixRule}
    {left whole : Expr} {tokens rest : List Token} (role : op.kind.infixRule? = some rule)
    (tighter : rank < rule.precedence.rank)
    (inside : ∀ room, ((rule.read (readWithin room) left op tokens).andThen
      (continueWithin room rank)).Takes levels room whole rest) :
    (continueWithin room rank left (op :: tokens)).Takes (levels + 1) room whole rest := by
  cases room with
  | zero =>
    refine ⟨fun le => absurd le (Nat.not_succ_le_zero _), fun _ => ?_⟩
    simp [continueWithin, continuation?_cons role tighter tokens]
  | succ room =>
    rw [continueWithin_cons role tighter]
    exact (inside room).succ

theorem continueWithin_binary_takes {rank room levels levels' r : Nat} {op : Token}
    {p : Precedence} {a : Associativity} {left right whole : Expr} {tokens after rest : List Token}
    (role : op.kind.infixRule? = some (.binary p a)) (tighter : rank < p.rank)
    (right_rank : a.rightRank p = r)
    (operand : ∀ room, (readWithin room r tokens).Takes levels room right after)
    (others : ∀ room,
      (continueWithin room rank (.binary op.kind left right) after).Takes levels' room whole rest) :
    (continueWithin room rank left (op :: tokens)).Takes (max levels levels' + 1) room whole
      rest := by
  subst right_rank
  refine continueWithin_takes role tighter fun room => ?_
  exact ((operand room).andThen_done (Expr.binary op.kind left)).andThen (others room)

end Expr

namespace Grammar

/-- The rule by which a head is read. -/
def Head.rule : Head → PrefixRule
  | .name _ => .name
  | .group _ _ _ => .group .rightParen
  | .signed _ _ _ => .operator .prefixed
  | .bound _ _ _ _ _ => .bounded .comma .ofBody

theorem Head.prefixRule?_first (h : Head) : h.first.kind.prefixRule? = some h.rule := by
  cases h with
  | name => rfl
  | group => rfl
  | signed op sign => exact (prefixRule?_eq_operator_iff _ _).mpr ⟨sign, rfl⟩
  | bound op binder => exact (prefixRule?_eq_bounded_iff _ _ _).mpr ⟨binder, rfl, rfl⟩

theorem Head.first_ne_ofBody (h : Head) : h.first.kind ≠ .ofBody := by
  intro same
  have role := h.prefixRule?_first
  rw [same] at role
  cases role

theorem Phrase.nextToken_ne_ofBody {m : Nat} (d : Phrase m) (rest : List Token) :
    (nextToken (d.tokens ++ rest)).kind ≠ .ofBody := by
  cases d with
  | mk head links => exact head.first_ne_ofBody

mutual

theorem Phrase.read_takes {m : Nat} (d : Phrase m) (room : Nat) {rest : List Token}
    (longest : d.Longest rest) :
    (Expr.readWithin room m (d.tokens ++ rest)).Takes d.levels room d.tree rest := by
  match d with
  | .mk head links =>
    obtain ⟨longest_head, longest_links, stops⟩ := longest
    cases room with
    | zero => exact ⟨fun le => absurd le (Nat.not_succ_le_zero _), fun _ => rfl⟩
    | succ room =>
      have first := head.read_takes room longest_head
      have then_ := links.read_takes room head.tree longest_links stops
      simp only [Phrase.tokens, List.cons_append, List.append_assoc]
      rw [Expr.readWithin_cons head.prefixRule?_first]
      exact (first.andThen then_).succ

theorem Head.read_takes (h : Head) (room : Nat) {rest : List Token} (longest : h.Longest rest) :
    (h.rule.read (Expr.readWithin room) h.first (h.others ++ rest)).Takes h.levels room h.tree
      rest := by
  cases h with
  | name text => exact Outcome.done_takes room _ rest
  | group opening inner closing =>
    have inside := inner.read_takes room longest
    simp only [Head.rule, Head.others, PrefixRule.read, List.append_assoc, List.singleton_append]
    rw [Head.levels, ← Nat.max_zero inner.levels]
    refine inside.andThen ?_
    rw [expectToken_cons, Outcome.done_andThen]
    exact Outcome.done_takes room _ rest
  | signed op sign operand =>
    have inside := operand.read_takes room longest
    exact inside.andThen_done _
  | bound op binder bounds stop body =>
    obtain ⟨longest_bounds, longest_body⟩ := longest
    have bounds_read := bounds.read_takes room longest_bounds
      ((bounds.tokens ++ ⟨.ofBody, stop⟩ :: (body.tokens ++ rest)).length + 1)
      (by rw [List.length_append]; omega)
    have body_read := body.read_takes room longest_body
    simp only [Head.rule, Head.others, PrefixRule.read, List.append_assoc, List.cons_append]
    refine Outcome.Takes.andThen bounds_read ?_
    rw [expectToken_cons, Outcome.done_andThen]
    exact body_read.andThen_done _

theorem Bounds.read_takes (bs : Bounds) (room : Nat) {stop : String} {rest : List Token}
    (longest : bs.Longest (⟨.ofBody, stop⟩ :: rest)) (limit : Nat)
    (enough : bs.tokens.length < limit) :
    (readBoundsWithin (Expr.readWithin room) .comma .ofBody limit
      (bs.tokens ++ ⟨.ofBody, stop⟩ :: rest)).Takes bs.levels room bs.trees
      (⟨.ofBody, stop⟩ :: rest) := by
  obtain ⟨limit, rfl⟩ : ∃ limit', limit = limit' + 1 := ⟨limit - 1, by omega⟩
  have ends (limit : Nat) : readBoundsWithin (Expr.readWithin room) .comma .ofBody limit
      (⟨.ofBody, stop⟩ :: rest) = .done [] (⟨.ofBody, stop⟩ :: rest) :=
    readBoundsWithin_of_stop _ _ limit rfl
  cases bs with
  | none =>
    rw [Bounds.tokens, List.nil_append, ends]
    exact Outcome.done_takes room _ _
  | last bound =>
    have first := bound.read_takes room longest
    rw [Bounds.levels, ← Nat.max_zero bound.levels]
    refine readBoundsWithin_takes (bound.nextToken_ne_ofBody _) first
      (readSeparator_of_stop _ rfl) ?_
    rw [ends]
    exact Outcome.done_takes room _ _
  | more bound comma others =>
    obtain ⟨longest_bound, longest_others⟩ := longest
    have first := bound.read_takes room longest_bound
    have then_ := others.read_takes room longest_others limit
      (by simp only [Bounds.tokens, List.length_append, List.length_cons] at enough; omega)
    simp only [Bounds.tokens, List.append_assoc, List.cons_append]
    exact readBoundsWithin_takes (bound.nextToken_ne_ofBody _) first
      (readSeparator_cons (by decide) _ _) then_

theorem Links.read_takes {m : Nat} (ls : Links m) (room : Nat) (start : Expr) {rest : List Token}
    (longest : ls.Longest rest) (stops : Stops m rest) :
    (Expr.continueWithin room m start (ls.tokens ++ rest)).Takes ls.levels room (ls.tree start)
      rest := by
  match ls with
  | .nil =>
    rw [Links.tokens, List.nil_append, Expr.continueWithin_of_stops stops]
    exact Outcome.done_takes room _ rest
  | .left op listed tighter right others =>
    obtain ⟨longest_right, longest_others⟩ := longest
    obtain ⟨p, role, same⟩ := (mem_leftOperators_iff _ _).mp listed
    simp only [Links.tokens, List.cons_append, List.append_assoc]
    exact Expr.continueWithin_binary_takes role (same ▸ tighter) same
      (fun room => right.read_takes room longest_right)
      (fun room => others.read_takes room _ longest_others stops)
  | .right op listed tighter right others =>
    obtain ⟨longest_right, longest_others⟩ := longest
    obtain ⟨p, role, same⟩ := (mem_rightOperators_iff _ _).mp listed
    simp only [Links.tokens, List.cons_append, List.append_assoc]
    exact Expr.continueWithin_binary_takes role (same ▸ tighter) (congrArg (· - 1) same)
      (fun room => right.read_takes room longest_right)
      (fun room => others.read_takes room _ longest_others stops)
  | .mark op listed tighter others =>
    have role := (infixRule?_eq_postfixed_iff op.kind .postfixed).mpr ⟨listed, rfl⟩
    exact Expr.continueWithin_takes role tighter fun room =>
      others.read_takes room _ longest stops

end

end Grammar

end MathShorthand
