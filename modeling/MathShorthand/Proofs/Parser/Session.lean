import MathShorthand.Proofs.Parser.Machine

/-!
# Parsers in use

A session makes one call after another on a parser, of any of its operations, and goes on after
errors as after successes. Reading is what the machine comes to, which counts its levels. Whatever
a session did, its parser counts no level as open, so nothing is left of it but the tokens that it
did not take (`Session.leaves_no_trace`).
-/

namespace MathShorthand

open StateTransition

inductive Operation where
  | peek
  | consume
  | isExhausted
  | expect (wanted : Kind)
  | parse (rank : Nat)
  | parsePrefix (rule : PrefixRule) (token : Token)
  | parseInfix (rule : InfixRule) (left : Expr) (token : Token)

inductive Answer where
  | token (t : Token)
  | flag (b : Bool)
  | expected (result : Except ParseError Token)
  | expression (result : Except ParseError Expr)

/-- An operation on `p` gives an answer and leaves a parser. -/
inductive Performs (p : Parser) : Operation → Answer → Parser → Prop
  | peek : Performs p .peek (.token p.peek) p
  | consume : Performs p .consume (.token p.consume.1) p.consume.2
  | isExhausted : Performs p .isExhausted (.flag p.isExhausted) p
  | expect (wanted : Kind) :
    Performs p (.expect wanted) (.expected (p.expect wanted).1) (p.expect wanted).2
  | parse {rank : Nat} {result : Except ParseError Expr} {q : Parser} :
    Machine.returned (result, q) ∈ eval Machine.step ⟨.read rank, [], p⟩ →
    Performs p (.parse rank) (.expression result) q
  | parsePrefix {rule : PrefixRule} {token : Token} {result : Except ParseError Expr}
    {q : Parser} :
    Machine.returned (result, q) ∈ eval Machine.step ⟨.start rule token, [], p⟩ →
    Performs p (.parsePrefix rule token) (.expression result) q
  | parseInfix {rule : InfixRule} {left : Expr} {token : Token}
    {result : Except ParseError Expr} {q : Parser} :
    Machine.returned (result, q) ∈ eval Machine.step ⟨.link rule left token, [], p⟩ →
    Performs p (.parseInfix rule left token) (.expression result) q

/-- The operations are performed one after another, each on the parser that the one before left. -/
inductive Session : Parser → List Operation → List Answer → Parser → Prop
  | nil (p : Parser) : Session p [] [] p
  | cons {p q r : Parser} {op : Operation} {ops : List Operation} {answer : Answer}
    {answers : List Answer} :
    Performs p op answer q → Session q ops answers r → Session p (op :: ops) (answer :: answers) r

def Operation.outcome (p : Parser) : Operation → Answer × Parser
  | peek => (.token p.peek, p)
  | consume => (.token p.consume.1, p.consume.2)
  | isExhausted => (.flag p.isExhausted, p)
  | expect wanted => (.expected (p.expect wanted).1, (p.expect wanted).2)
  | parse rank => (.expression (p.parse rank).1, (p.parse rank).2)
  | parsePrefix rule token =>
    (.expression (p.parsePrefix rule token).1, (p.parsePrefix rule token).2)
  | parseInfix rule left token =>
    (.expression (p.parseInfix rule left token).1, (p.parseInfix rule left token).2)

theorem Machine.returned_mem_eval_iff {m : Machine} {a b : Except ParseError Expr × Parser}
    (run : eval Machine.step m = Part.some (returned b)) :
    returned a ∈ eval Machine.step m ↔ a = b := by
  obtain ⟨result, p⟩ := a
  obtain ⟨result', q⟩ := b
  rw [run, Part.mem_some_iff]
  simp only [returned, Machine.mk.injEq, Control.give.injEq, Prod.mk.injEq, true_and]

theorem performs_outcome (p : Parser) (op : Operation) :
    Performs p op (op.outcome p).1 (op.outcome p).2 := by
  cases op with
  | peek => exact .peek
  | consume => exact .consume
  | isExhausted => exact .isExhausted
  | expect wanted => exact .expect wanted
  | parse rank => exact .parse ((Machine.returned_mem_eval_iff (Machine.eval_read p rank)).mpr rfl)
  | parsePrefix rule token =>
    exact .parsePrefix ((Machine.returned_mem_eval_iff (Machine.eval_start p rule token)).mpr rfl)
  | parseInfix rule left token =>
    have run := Machine.eval_link p rule left token
    exact .parseInfix ((Machine.returned_mem_eval_iff run).mpr rfl)

theorem Performs.eq_outcome {p q : Parser} {op : Operation} {answer : Answer}
    (performs : Performs p op answer q) : (answer, q) = op.outcome p := by
  cases performs with
  | parse run =>
    rw [Operation.outcome, ← (Machine.returned_mem_eval_iff (Machine.eval_read p _)).mp run]
  | parsePrefix run =>
    rw [Operation.outcome, ← (Machine.returned_mem_eval_iff (Machine.eval_start p _ _)).mp run]
  | parseInfix run =>
    rw [Operation.outcome, ← (Machine.returned_mem_eval_iff (Machine.eval_link p _ _ _)).mp run]
  | _ => rfl

/-- `q` is `p` after some of its tokens. -/
structure Parser.Later (p q : Parser) : Prop where
  depth : q.depth = p.depth
  tokens : q.tokens <:+ p.tokens

namespace Parser

variable {p q r : Parser}

theorem Later.refl (p : Parser) : p.Later p := ⟨rfl, List.suffix_refl _⟩

theorem Later.trans (first : p.Later q) (then_ : q.Later r) : p.Later r :=
  ⟨then_.depth.trans first.depth, then_.tokens.trans first.tokens⟩

theorem later_outcome (p : Parser) (op : Operation) : p.Later (op.outcome p).2 := by
  cases op with
  | peek => exact .refl p
  | isExhausted => exact .refl p
  | consume => exact ⟨rfl, List.tail_suffix _⟩
  | expect wanted => exact ⟨rfl, rest_expectToken_suffix wanted p.tokens⟩
  | parse rank => exact ⟨rfl, Expr.rest_readWithin_suffix p.room rank p.tokens⟩
  | parsePrefix rule token =>
    have front : TakesFromFront (Expr.readWithin p.room) := Expr.rest_readWithin_suffix p.room
    exact ⟨rfl, rest_prefixRule_read_suffix front rule token p.tokens⟩
  | parseInfix rule left token =>
    have front : TakesFromFront (Expr.readWithin p.room) := Expr.rest_readWithin_suffix p.room
    exact ⟨rfl, rest_infixRule_read_suffix front rule left token p.tokens⟩

end Parser

/-- Every operation has one outcome. -/
theorem exists_performs_iff (p : Parser) (op : Operation) :
    ∃ answer q, p.Later q ∧
      ∀ answer' q', Performs p op answer' q' ↔ answer' = answer ∧ q' = q := by
  refine ⟨(op.outcome p).1, _, p.later_outcome op, fun answer' q' => ⟨fun performs => ?_, ?_⟩⟩
  · exact Prod.mk.inj performs.eq_outcome
  · rintro ⟨rfl, rfl⟩
    exact performs_outcome p op

namespace Session

variable {p q r : Parser} {ops more : List Operation} {answers answers' : List Answer}

theorem exists_iff (p : Parser) (ops : List Operation) :
    ∃ answers q, p.Later q ∧
      ∀ answers' q', Session p ops answers' q' ↔ answers' = answers ∧ q' = q := by
  induction ops generalizing p with
  | nil =>
    refine ⟨[], p, .refl p, fun answers' q' => ⟨fun session => ?_, ?_⟩⟩
    · cases session
      exact ⟨rfl, rfl⟩
    · rintro ⟨rfl, rfl⟩
      exact .nil q'
  | cons op ops ih =>
    obtain ⟨answer, q, later, performs_iff⟩ := exists_performs_iff p op
    obtain ⟨answers, r, later', session_iff⟩ := ih q
    refine ⟨answer :: answers, r, later.trans later', fun answers' r' => ⟨fun session => ?_, ?_⟩⟩
    · cases session with
      | cons performs session =>
        obtain ⟨rfl, rfl⟩ := (performs_iff _ _).mp performs
        obtain ⟨rfl, rfl⟩ := (session_iff _ _).mp session
        exact ⟨rfl, rfl⟩
    · rintro ⟨rfl, rfl⟩
      exact .cons ((performs_iff _ _).mpr ⟨rfl, rfl⟩) ((session_iff _ _).mpr ⟨rfl, rfl⟩)

theorem append (session : Session p ops answers q) (more : List Operation)
    (answers' : List Answer) (r : Parser) :
    Session p (ops ++ more) (answers ++ answers') r ↔ Session q more answers' r := by
  induction session with
  | nil p => exact Iff.rfl
  | @cons p q' q op ops answer answers performs session ih =>
    rw [List.cons_append, List.cons_append, ← ih]
    constructor
    · intro whole
      cases whole with
      | cons performs' rest =>
        -- the first operation has one outcome, so the rest starts where the session went on
        obtain ⟨-, rfl⟩ := Prod.mk.inj (performs'.eq_outcome.trans performs.eq_outcome.symm)
        exact rest
    · exact .cons performs

/-- A session on some tokens has one outcome. Its parser has no level open and what is left of the
tokens, and the session goes on as one on these would begin. -/
theorem leaves_no_trace (tokens : List Token) (ops : List Operation) :
    ∃ answers p, p.depth = 0 ∧ p.tokens <:+ tokens ∧
      (∀ answers' q, Session (.ofTokens tokens) ops answers' q ↔ answers' = answers ∧ q = p) ∧
      ∀ more answers' q,
        Session (.ofTokens tokens) (ops ++ more) (answers ++ answers') q ↔
          Session (.ofTokens p.tokens) more answers' q := by
  obtain ⟨answers, p, later, session_iff⟩ := exists_iff (.ofTokens tokens) ops
  have fresh : p = .ofTokens p.tokens := congrArg (Parser.mk p.tokens) later.depth
  refine ⟨answers, p, later.depth, later.tokens, session_iff, fun more answers' q => ?_⟩
  rw [← fresh]
  exact ((session_iff answers p).mpr ⟨rfl, rfl⟩).append more answers' q

end Session

end MathShorthand
