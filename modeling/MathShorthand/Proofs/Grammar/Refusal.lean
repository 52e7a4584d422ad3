import MathShorthand.Proofs.Grammar.Bounds

/-!
# Where reading breaks off

Reading that fails without being too deep has come to a token that cannot stand there. The tokens in
front of it are the beginning of something that can be read, and whatever begins with them and goes
on with that token fails in the same way (`BreaksOff`). Each rule breaks off where the first of its
parts does that breaks off, so this goes through all rules by three lemmas: for the first part
(`BreaksOff.andThen`), for a later part (`BreaksOff.after`), and for a token that has to come.
-/

namespace MathShorthand.Grammar

/-- What is said of the first of the tokens `back` where it cannot stand, and what is left of
them. -/
inductive Refuses (back : List Token) : ParseError → List Token → Prop
  | unexpected (no_rule : (nextToken back).kind.prefixRule? = none) :
    Refuses back (.unexpected (nextToken back)) back.tail
  | expected {wanted : Kind} (closing : wanted = .rightParen ∨ wanted = .comma)
    (other : (nextToken back).kind ≠ wanted) (no_rule : (nextToken back).kind.infixRule? = none) :
    Refuses back (.expected wanted (nextToken back)) back

variable {α β : Type}

/-- There are tokens with which `read` succeeds in front of all that `ends`. They start as
`starts` says. -/
def CanEnd (starts ends : List Token → Prop) (read : List Token → Outcome α) : Prop :=
  ∃ more a, ∀ rest, ends rest → starts (more ++ rest) ∧ read (more ++ rest) = .done a rest

/-- Having taken `seen`, `read` cannot go on with the first of the tokens `back`, but could have
gone on to an end. -/
structure BreaksOff (ends : List Token → Prop) (read : List Token → Outcome α)
    (seen back : List Token) (cause : ParseError) : Prop where
  alike : ∀ back', back'.head? = back.head? →
    ∃ rest, Refuses back' cause rest ∧ read (seen ++ back') = ⟨.error cause, rest⟩
  can_end : CanEnd (Stops 0) ends fun tokens => read (seen ++ tokens)

variable {starts mid ends : List Token → Prop} {read read' : List Token → Outcome α}
  {next : α → List Token → Outcome β} {front seen back : List Token} {cause : ParseError} {a : α}

/-! ### Going on to an end -/

theorem canEnd_done (f : β) : CanEnd ends ends fun tokens => .done f tokens :=
  ⟨[], f, fun _ ending => ⟨ending, rfl⟩⟩

theorem CanEnd.andThen (first : CanEnd starts mid read) (then_ : ∀ a, CanEnd mid ends (next a)) :
    CanEnd starts ends fun tokens => (read tokens).andThen next := by
  obtain ⟨more, a, first⟩ := first
  obtain ⟨others, b, then_⟩ := then_ a
  refine ⟨more ++ others, b, fun rest ending => ?_⟩
  obtain ⟨between, read_then⟩ := then_ rest ending
  obtain ⟨start, read_first⟩ := first _ between
  rw [List.append_assoc]
  refine ⟨start, ?_⟩
  dsimp only
  rw [read_first, Outcome.done_andThen, read_then]

theorem canEnd_expectToken (wanted : Kind) (start : ∀ rest, starts (⟨wanted, ""⟩ :: rest)) :
    CanEnd starts ends (expectToken wanted) :=
  ⟨[⟨wanted, ""⟩], ⟨wanted, ""⟩, fun rest _ => ⟨start rest, expectToken_cons "" rest⟩⟩

/-- Any expression can be a name. -/
theorem canEnd_readWithin (room m : Nat) :
    CanEnd (Stops 0) (Stops 0) (Expr.readWithin (room + 1) m) := by
  refine ⟨[⟨.name, ""⟩], .name "", fun rest stops => ⟨Nat.le_refl 0, ?_⟩⟩
  have role : Kind.name.prefixRule? = some .name := rfl
  rw [List.singleton_append, Expr.readWithin_cons role]
  exact Expr.continueWithin_of_stops (stops.mono (Nat.zero_le m)) room _

theorem canEnd_continueWithin (room m : Nat) (left : Expr) :
    CanEnd (Stops 0) (Stops 0) (Expr.continueWithin room m left) :=
  ⟨[], left, fun _ stops =>
    ⟨stops, Expr.continueWithin_of_stops (stops.mono (Nat.zero_le m)) room left⟩⟩

/-! ### Breaking off inside -/

theorem BreaksOff.cons {t : Token} (broken : BreaksOff ends read' seen back cause)
    (same : ∀ tokens, read (t :: tokens) = read' tokens) :
    BreaksOff ends read (t :: seen) back cause where
  alike back' head := by
    obtain ⟨rest, refuses, failed⟩ := broken.alike back' head
    exact ⟨rest, refuses, (same _).trans failed⟩
  can_end := by
    obtain ⟨more, a, ending⟩ := broken.can_end
    refine ⟨more, a, fun rest ends_rest => ?_⟩
    obtain ⟨stops, read⟩ := ending rest ends_rest
    exact ⟨stops, (same _).trans read⟩

/-- It is enough for two readers to agree where `agree` says, if the next token decides that and the
second succeeds nowhere else. -/
theorem BreaksOff.congr {agree : List Token → Prop}
    (broken : BreaksOff ends read' seen back cause)
    (same : ∀ tokens, agree tokens → read tokens = read' tokens)
    (of_head : ∀ tokens tokens', tokens'.head? = tokens.head? → agree tokens → agree tokens')
    (of_done : ∀ tokens a rest, read' tokens = .done a rest → agree tokens)
    (here : agree (seen ++ back)) : BreaksOff ends read seen back cause where
  alike back' head := by
    obtain ⟨rest, refuses, failed⟩ := broken.alike back' head
    have same_head : (seen ++ back').head? = (seen ++ back).head? := by
      rw [List.head?_append, List.head?_append, head]
    exact ⟨rest, refuses, (same _ (of_head _ _ same_head here)).trans failed⟩
  can_end := by
    obtain ⟨more, a, ending⟩ := broken.can_end
    refine ⟨more, a, fun rest ends_rest => ?_⟩
    obtain ⟨stops, read⟩ := ending rest ends_rest
    exact ⟨stops, (same _ (of_done _ _ _ read)).trans read⟩

theorem BreaksOff.andThen (broken : BreaksOff mid read seen back cause)
    (then_ : ∀ a, CanEnd mid ends (next a)) :
    BreaksOff ends (fun tokens => (read tokens).andThen next) seen back cause where
  alike back' head := by
    obtain ⟨rest, refuses, failed⟩ := broken.alike back' head
    exact ⟨rest, refuses, by rw [failed, Outcome.error_andThen]⟩
  can_end := broken.can_end.andThen then_

theorem BreaksOff.after (reads : Reads read front a (seen ++ back))
    (broken : BreaksOff ends (next a) seen back cause) :
    BreaksOff ends (fun tokens => (read tokens).andThen next) (front ++ seen) back cause where
  alike back' head := by
    obtain ⟨rest, refuses, failed⟩ := broken.alike back' head
    have first := reads _ ((NoTighter.of_head? head).append seen)
    refine ⟨rest, refuses, ?_⟩
    rw [List.append_assoc, first, Outcome.done_andThen, failed]
  can_end := by
    obtain ⟨more, b, ending⟩ := broken.can_end
    refine ⟨more, b, fun rest ends_rest => ?_⟩
    obtain ⟨stops, then_⟩ := ending rest ends_rest
    have first := reads _ ((NoTighter.of_stops stops back).append seen)
    dsimp only
    rw [List.append_assoc, first, Outcome.done_andThen]
    exact ⟨stops, then_⟩

/-- The first of some tokens is not the one that has to come, and no operator either. -/
theorem BreaksOff.expected {wanted : Kind} (closing : wanted = .rightParen ∨ wanted = .comma)
    (stops : Stops 0 back) (other : (nextToken back).kind ≠ wanted)
    (failed : ∀ back', back'.head? = back.head? →
      read back' = ⟨.error (.expected wanted (nextToken back')), back'⟩)
    (can_end : CanEnd (Stops 0) ends read) :
    BreaksOff ends read [] back (.expected wanted (nextToken back)) where
  alike back' head := by
    have no_rule := ((nextToken back).kind.precedence_eq_zero_iff).mp (Nat.le_zero.mp stops)
    rw [← nextToken_of_head? head] at other no_rule ⊢
    exact ⟨back', .expected closing other no_rule, failed back' head⟩
  can_end := can_end

/-! ### Every failure breaks off -/

/-- Wherever `read` fails on tokens that start as `starts` says, it breaks off, unless it is too
deep. -/
def Locates (starts ends : List Token → Prop) (read : List Token → Outcome α) : Prop :=
  ∀ tokens cause rest, starts tokens → read tokens = ⟨.error cause, rest⟩ → cause ≠ .tooDeep →
    ∃ seen back, tokens = seen ++ back ∧ BreaksOff ends read seen back cause

theorem locates_done (f : β) : Locates starts ends fun tokens => .done f tokens := by
  intro tokens cause rest _ failed
  cases congrArg Outcome.result failed

theorem Locates.andThen_done (first : Locates starts ends read) (f : α → β) :
    Locates starts ends fun tokens => (read tokens).andThen fun a rest => .done (f a) rest := by
  intro tokens cause rest start failed not_deep
  dsimp only at failed
  obtain ⟨result, after, outcome⟩ : ∃ result after, read tokens = ⟨result, after⟩ := ⟨_, _, rfl⟩
  rw [outcome] at failed
  cases result with
  | error cause' =>
    cases failed
    obtain ⟨seen, back, split, broken⟩ := first _ _ _ start outcome not_deep
    exact ⟨seen, back, split, broken.andThen fun a => canEnd_done (f a)⟩
  | ok a => cases congrArg Outcome.result failed

theorem Locates.andThen {between : List Token → Prop} (again : ReadsAgain read)
    (first : Locates starts mid read)
    (stops : ∀ tokens a rest, starts tokens → read tokens = .done a rest → between rest)
    (finish : ∀ a, CanEnd mid ends (next a)) (then_ : ∀ a, Locates between ends (next a)) :
    Locates starts ends fun tokens => (read tokens).andThen next := by
  intro tokens cause rest start failed not_deep
  dsimp only at failed
  obtain ⟨result, after, outcome⟩ : ∃ result after, read tokens = ⟨result, after⟩ := ⟨_, _, rfl⟩
  rw [outcome] at failed
  cases result with
  | error cause' =>
    cases failed
    obtain ⟨seen, back, split, broken⟩ := first _ _ _ start outcome not_deep
    exact ⟨seen, back, split, broken.andThen finish⟩
  | ok a =>
    obtain ⟨front, rfl, reads⟩ := again _ _ _ outcome
    obtain ⟨seen, back, rfl, broken⟩ := then_ a _ _ _ (stops _ _ _ start outcome) failed not_deep
    exact ⟨front ++ seen, back, (List.append_assoc _ _ _).symm, broken.after reads⟩

/-- A closing bracket can only be missed where an expression has ended. -/
theorem locates_closing : Locates (Stops 0) ends (expectToken .rightParen) := by
  intro tokens cause rest stops failed not_deep
  by_cases found : (nextToken tokens).kind = .rightParen
  · rw [expectToken, if_pos found] at failed
    cases failed
  · rw [expectToken, if_neg found] at failed
    cases failed
    refine ⟨[], tokens, rfl, .expected (.inl rfl) stops found (fun back' head => ?_)
      (canEnd_expectToken _ fun _ => Nat.le_refl 0)⟩
    rw [← nextToken_of_head? head] at found
    rw [expectToken, if_neg found]

end MathShorthand.Grammar
