import MathShorthand.Parser.State
import MathShorthand.Proofs.Grammar.Sequence

/-!
# The limit on nesting

A `Reader` reads operands and goes on with chains. The reader within some number of levels is built
from the one within a level less by `Reader.levelUp`, and a reader that this builds from itself
counts no levels (`Reader.Unlimited`). Whatever the operands come to goes into the whole in one
place after another, so more levels change an outcome only if it was too deep
(`Reader.DeepOr.levelUp`). As every level takes a token, there are always enough of them
(`inTime_within`), and the reader without a limit is the one that is given so many.
-/

namespace MathShorthand

namespace Outcome

variable {α β : Type} {o o' : Outcome α} {next next' : α → List Token → Outcome β}

/-- The outcome is too deep, or it is `o'`. -/
def DeepOr (o o' : Outcome α) : Prop := o.result = .error .tooDeep ∨ o = o'

/-- The outcome is not that the limit was met. -/
def InTime (o : Outcome α) : Prop := o.result ≠ .error .tooDeep

theorem DeepOr.refl (o : Outcome α) : o.DeepOr o := .inr rfl

theorem DeepOr.eq (agree : o.DeepOr o') (in_time : o.InTime) : o = o' := agree.resolve_left in_time

theorem DeepOr.andThen (first : o.DeepOr o')
    (then_ : ∀ a rest, (next a rest).DeepOr (next' a rest)) :
    (o.andThen next).DeepOr (o'.andThen next') := by
  rcases first with deep | rfl
  · exact .inl (result_andThen_of_error deep)
  · obtain ⟨e | a, rest⟩ := o
    · exact .refl _
    · exact then_ a rest

theorem DeepOr.eq_of_read {result : Except ParseError α} {rest : List Token} (agree : o.DeepOr o')
    (read : o = ⟨result, rest⟩) (not_deep : result ≠ .error .tooDeep) : o' = ⟨result, rest⟩ := by
  subst read
  exact (agree.eq not_deep).symm

/-- Of two outcomes one of which may be too deep, it is not the one that is in time. -/
theorem deepOr_of_either (agree : o.DeepOr o' ∨ o'.DeepOr o) (in_time : o'.InTime) : o.DeepOr o' :=
  agree.elim id fun agree => .inr (agree.eq in_time).symm

theorem DeepOr.andThen_left (first : o.DeepOr o') (next : α → List Token → Outcome β) :
    (o.andThen next).DeepOr (o'.andThen next) :=
  first.andThen fun a rest => .refl (next a rest)

theorem inTime_done (a : α) (rest : List Token) : (done a rest).InTime := nofun

theorem InTime.andThen (first : o.InTime) (then_ : ∀ a, (next a o.rest).InTime) :
    (o.andThen next).InTime := by
  obtain ⟨e | a, rest⟩ := o
  · intro deep
    exact first (congrArg Except.error (Except.error.inj deep))
  · exact then_ a

end Outcome

theorem inTime_expectToken (wanted : Kind) (tokens : List Token) :
    (expectToken wanted tokens).InTime := by
  unfold expectToken
  split <;> exact nofun

theorem inTime_readSeparator (separator terminator : Kind) (tokens : List Token) :
    (readSeparator separator terminator tokens).InTime := by
  unfold readSeparator
  split
  · exact Outcome.inTime_done () tokens
  · exact (inTime_expectToken separator tokens).andThen fun _ => Outcome.inTime_done () _

/-! ### Readers -/

/-- A way to read operands, and a way to go on with the chain that starts with an expression. -/
@[ext] structure Reader where
  operand : OperandReader
  chain : Nat → Expr → List Token → Outcome Expr

namespace Reader

/-- The reader within `room` levels. -/
def within (room : Nat) : Reader := ⟨Expr.readWithin room, Expr.continueWithin room⟩

/-- The reader that leaves operands and the links after the first to `r`. -/
def levelUp (r : Reader) : Reader where
  operand rank tokens :=
    match (nextToken tokens).kind.prefixRule? with
    | none => ⟨.error (.unexpected (nextToken tokens)), tokens.tail⟩
    | some rule => (rule.read r.operand (nextToken tokens) tokens.tail).andThen (r.chain rank)
  chain rank left tokens :=
    match continuation? rank tokens with
    | none => .done left tokens
    | some rule => (rule.read r.operand left (nextToken tokens) tokens.tail).andThen (r.chain rank)

/-- The reader leaves operands and links to itself, and so to any depth. -/
def Unlimited (r : Reader) : Prop := r.levelUp = r

theorem within_succ (room : Nat) : within (room + 1) = (within room).levelUp := rfl

/-- What `r` reads is what `r'` reads, unless it is too deep for `r`. -/
structure DeepOr (r r' : Reader) : Prop where
  operand : ∀ m tokens, (r.operand m tokens).DeepOr (r'.operand m tokens)
  chain : ∀ m left tokens, (r.chain m left tokens).DeepOr (r'.chain m left tokens)

variable {r r' : Reader}

theorem DeepOr.refl (r : Reader) : r.DeepOr r := ⟨fun _ _ => .refl _, fun _ _ _ => .refl _⟩

/-! ### More levels -/

theorem DeepOr.readBoundsWithin (agree : r.DeepOr r') (separator terminator : Kind) (limit : Nat)
    (tokens : List Token) :
    (readBoundsWithin r.operand separator terminator limit tokens).DeepOr
      (readBoundsWithin r'.operand separator terminator limit tokens) := by
  induction limit generalizing tokens with
  | zero => exact .refl _
  | succ limit ih =>
    unfold MathShorthand.readBoundsWithin
    split
    · exact .refl _
    · refine (agree.operand 0 tokens).andThen fun bound rest => ?_
      refine (Outcome.DeepOr.refl _).andThen fun _ rest => ?_
      exact (ih rest).andThen_left _

theorem DeepOr.prefixRule (agree : r.DeepOr r') (rule : PrefixRule) (token : Token)
    (tokens : List Token) :
    (rule.read r.operand token tokens).DeepOr (rule.read r'.operand token tokens) := by
  cases rule with
  | name => exact .refl _
  | group close => exact (agree.operand 0 tokens).andThen_left _
  | operator p => exact (agree.operand p.rank tokens).andThen_left _
  | bounded separator terminator =>
    refine (agree.readBoundsWithin separator terminator _ tokens).andThen fun bounds rest => ?_
    refine (Outcome.DeepOr.refl _).andThen fun _ rest => ?_
    exact (agree.operand 0 rest).andThen_left _

theorem DeepOr.infixRule (agree : r.DeepOr r') (rule : InfixRule) (left : Expr) (op : Token)
    (tokens : List Token) :
    (rule.read r.operand left op tokens).DeepOr (rule.read r'.operand left op tokens) := by
  cases rule with
  | binary p a => exact (agree.operand (a.rightRank p) tokens).andThen_left _
  | postfixed p => exact .refl _

/-- One level more on both sides leaves it at that. -/
theorem DeepOr.levelUp (agree : r.DeepOr r') : r.levelUp.DeepOr r'.levelUp where
  operand m tokens := by
    simp only [Reader.levelUp]
    split
    · exact .refl _
    · next rule _ => exact (agree.prefixRule rule _ _).andThen (agree.chain m)
  chain m left tokens := by
    simp only [Reader.levelUp]
    split
    · exact .refl _
    · next rule _ => exact (agree.infixRule rule left _ _).andThen (agree.chain m)

/-- Without a level all is too deep that is not at its end already. -/
theorem within_zero_deepOr_levelUp (r : Reader) : (within 0).DeepOr r.levelUp where
  operand _ _ := .inl rfl
  chain m left tokens := by
    simp only [within, Reader.levelUp, Expr.continueWithin]
    cases continuation? m tokens with
    | none => exact .refl _
    | some rule => exact .inl rfl

theorem within_deepOr_within {room room' : Nat} (le : room ≤ room') :
    (within room).DeepOr (within room') := by
  induction room generalizing room' with
  | zero =>
    cases room' with
    | zero => exact .refl _
    | succ room' => exact within_zero_deepOr_levelUp (within room')
  | succ room ih =>
    obtain ⟨room', rfl⟩ := Nat.exists_eq_succ_of_ne_zero (Nat.ne_zero_of_lt le)
    rw [within_succ, within_succ]
    exact (ih (Nat.le_of_succ_le_succ le)).levelUp

theorem within_deepOr_unlimited (unlimited : r.Unlimited) (room : Nat) : (within room).DeepOr r := by
  induction room with
  | zero =>
    rw [← unlimited]
    exact within_zero_deepOr_levelUp r
  | succ room ih =>
    rw [within_succ, ← unlimited]
    exact ih.levelUp

/-! ### Enough levels -/

/-- The reader gets along with its levels on fewer than `n` tokens. -/
structure InTimeBelow (r : Reader) (n : Nat) : Prop where
  operand : ∀ m tokens, tokens.length < n → (r.operand m tokens).InTime
  chain : ∀ m left tokens, tokens.length < n → (r.chain m left tokens).InTime

variable {n : Nat} {tokens : List Token}

theorem InTimeBelow.readBoundsWithin (in_time : r.InTimeBelow n) (front : TakesFromFront r.operand)
    (separator terminator : Kind) (limit : Nat) (few : tokens.length < n) :
    (readBoundsWithin r.operand separator terminator limit tokens).InTime := by
  induction limit generalizing tokens with
  | zero => exact Outcome.inTime_done _ _
  | succ limit ih =>
    unfold MathShorthand.readBoundsWithin
    split
    · exact Outcome.inTime_done _ _
    · refine (in_time.operand 0 tokens few).andThen fun bound => ?_
      refine (inTime_readSeparator separator terminator _).andThen fun _ => ?_
      have left := (rest_readSeparator_suffix separator terminator _).trans (front 0 tokens)
      exact (ih (Nat.lt_of_le_of_lt left.length_le few)).andThen fun bounds =>
        Outcome.inTime_done _ _

theorem InTimeBelow.prefixRule (in_time : r.InTimeBelow n) (front : TakesFromFront r.operand)
    (rule : PrefixRule) (token : Token) (few : tokens.length < n) :
    (rule.read r.operand token tokens).InTime := by
  cases rule with
  | name => exact Outcome.inTime_done _ _
  | group close =>
    exact (in_time.operand 0 tokens few).andThen fun inner =>
      (inTime_expectToken close _).andThen fun _ => Outcome.inTime_done _ _
  | operator p =>
    exact (in_time.operand p.rank tokens few).andThen fun operand => Outcome.inTime_done _ _
  | bounded separator terminator =>
    refine (in_time.readBoundsWithin front separator terminator _ few).andThen fun bounds => ?_
    refine (inTime_expectToken terminator _).andThen fun _ => ?_
    have left := (rest_expectToken_suffix terminator _).trans
      (rest_readBoundsWithin_suffix front separator terminator (tokens.length + 1) tokens)
    exact (in_time.operand 0 _ (Nat.lt_of_le_of_lt left.length_le few)).andThen fun body =>
      Outcome.inTime_done _ _

theorem InTimeBelow.infixRule (in_time : r.InTimeBelow n) (rule : InfixRule) (left : Expr)
    (op : Token) (few : tokens.length < n) : (rule.read r.operand left op tokens).InTime := by
  cases rule with
  | binary p a =>
    exact (in_time.operand (a.rightRank p) tokens few).andThen fun right => Outcome.inTime_done _ _
  | postfixed p => exact Outcome.inTime_done _ _

/-- A level more is enough for a token more. -/
theorem InTimeBelow.levelUp (in_time : r.InTimeBelow n) (front : TakesFromFront r.operand) :
    r.levelUp.InTimeBelow (n + 1) where
  operand m tokens few := by
    cases tokens with
    | nil => exact nofun
    | cons token tokens =>
      have few := Nat.lt_of_succ_lt_succ few
      simp only [Reader.levelUp, nextToken_cons, List.tail_cons]
      split
      · exact nofun
      · next rule _ =>
        refine (in_time.prefixRule front rule token few).andThen fun left => ?_
        have rest := rest_prefixRule_read_suffix front rule token tokens
        exact in_time.chain m left _ (Nat.lt_of_le_of_lt rest.length_le few)
  chain m left tokens few := by
    cases tokens with
    | nil => exact nofun
    | cons op tokens =>
      have few := Nat.lt_of_succ_lt_succ few
      simp only [Reader.levelUp, nextToken_cons, List.tail_cons]
      split
      · exact nofun
      · next rule _ =>
        refine (in_time.infixRule rule left op few).andThen fun whole => ?_
        have rest := rest_infixRule_read_suffix front rule left op tokens
        exact in_time.chain m whole _ (Nat.lt_of_le_of_lt rest.length_le few)

theorem inTime_within (room : Nat) : (within room).InTimeBelow room := by
  induction room with
  | zero => exact ⟨fun _ _ few => absurd few (Nat.not_lt_zero _),
      fun _ _ _ few => absurd few (Nat.not_lt_zero _)⟩
  | succ room ih =>
    rw [within_succ]
    exact ih.levelUp (Expr.rest_within_suffix room).1

/-! ### The reader without a limit -/

/-- The reader that gets a level for every token, and one for the end. -/
def free : Reader where
  operand m tokens := (within (tokens.length + 1)).operand m tokens
  chain m left tokens := (within (tokens.length + 1)).chain m left tokens

theorem free_inTime : (∀ m tokens, (free.operand m tokens).InTime) ∧
    ∀ m left tokens, (free.chain m left tokens).InTime :=
  ⟨fun m tokens => (inTime_within (tokens.length + 1)).operand m tokens (Nat.lt_succ_self _),
    fun m left tokens => (inTime_within (tokens.length + 1)).chain m left tokens (Nat.lt_succ_self _)⟩

theorem within_deepOr_free (room : Nat) : (within room).DeepOr free where
  operand m tokens := by
    refine Outcome.deepOr_of_either ?_ (free_inTime.1 m tokens)
    exact (Nat.le_total room (tokens.length + 1)).imp
      (fun le => (within_deepOr_within le).operand m tokens)
      (fun ge => (within_deepOr_within ge).operand m tokens)
  chain m left tokens := by
    refine Outcome.deepOr_of_either ?_ (free_inTime.2 m left tokens)
    exact (Nat.le_total room (tokens.length + 1)).imp
      (fun le => (within_deepOr_within le).chain m left tokens)
      (fun ge => (within_deepOr_within ge).chain m left tokens)

theorem eq_free_of_within (agree : ∀ room, (within (room + 1)).DeepOr r) : r = free := by
  ext1
  · funext m tokens
    exact (((agree tokens.length).operand m tokens).eq (free_inTime.1 m tokens)).symm
  · funext m left tokens
    exact (((agree tokens.length).chain m left tokens).eq (free_inTime.2 m left tokens)).symm

/-- It is the one reader that leaves operands and links to itself. -/
theorem unlimited_iff (r : Reader) : r.Unlimited ↔ r = free := by
  constructor
  · intro unlimited
    exact eq_free_of_within fun room => within_deepOr_unlimited unlimited (room + 1)
  · rintro rfl
    -- a reader of one level more agrees with one level up from the free one
    exact eq_free_of_within fun room => (within_deepOr_free room).levelUp

end Reader

/-! ### The parser -/

theorem inTime_readAll {tokens : List Token} (few : tokens.length < maxDepth) :
    Expr.readAll tokens ≠ .error .tooDeep := by
  fun_induction Expr.readAll tokens with
  | case1 => exact nofun
  | case2 token tokens cause rest found =>
    have in_time := (Reader.inTime_within maxDepth).operand 0 (token :: tokens) few
    intro deep
    cases deep
    exact in_time (congrArg Outcome.result found)
  | case3 token tokens e rest found progress cause failed ih =>
    intro deep
    cases deep
    exact ih (Nat.lt_trans progress few) failed
  | case4 => exact nofun

theorem parse_eq_iff (p p' : Parser) (rank : Nat) (result : Except ParseError Expr) :
    p.parse rank = (result, p') ↔
      Expr.readWithin p.room rank p.tokens = ⟨result, p'.tokens⟩ ∧ p'.depth = p.depth := by
  obtain ⟨rest, depth⟩ := p'
  have parsed : p.parse rank = ((Expr.readWithin p.room rank p.tokens).result,
      ⟨(Expr.readWithin p.room rank p.tokens).rest, p.depth⟩) := rfl
  rw [parsed]
  obtain ⟨found, left⟩ := Expr.readWithin p.room rank p.tokens
  simp only [Prod.mk.injEq, Parser.mk.injEq, Outcome.mk.injEq, and_assoc, eq_comm]

/-- Unless it is too deep, an expression is what it would be with fewer levels open around it, and
what the one reader without a limit makes of the tokens. Fewer tokens than there are levels are never
too deep. -/
theorem parse_of_not_tooDeep :
    (∀ tokens rank d d' result p, d ≤ d' → (Parser.mk tokens d').parse rank = (result, p) →
      result ≠ .error .tooDeep → (Parser.mk tokens d).parse rank = (result, ⟨p.tokens, d⟩)) ∧
    (∃ r : Reader, (∀ r' : Reader, r'.Unlimited ↔ r' = r) ∧
      ∀ (p p' : Parser) rank result, p.parse rank = (result, p') → result ≠ .error .tooDeep →
        r.operand rank p.tokens = ⟨result, p'.tokens⟩) ∧
    ∀ tokens, tokens.length < maxDepth → Expr.readAll tokens ≠ .error .tooDeep := by
  refine ⟨?_, ⟨.free, Reader.unlimited_iff, ?_⟩, fun tokens => inTime_readAll⟩
  · intro tokens rank d d' result p le parsed not_deep
    obtain ⟨read, -⟩ := (parse_eq_iff _ _ _ _).mp parsed
    have more : maxDepth - d' ≤ maxDepth - d := Nat.sub_le_sub_left le maxDepth
    have agree := (Reader.within_deepOr_within more).operand rank tokens
    exact (parse_eq_iff _ _ _ _).mpr ⟨agree.eq_of_read read not_deep, rfl⟩
  · intro p p' rank result parsed not_deep
    obtain ⟨read, -⟩ := (parse_eq_iff _ _ _ _).mp parsed
    have agree := (Reader.within_deepOr_free p.room).operand rank p.tokens
    exact agree.eq_of_read read not_deep

/-- The signs `-` in front of nothing take a level each, and one more for the operand. -/
theorem readWithin_signs (room m : Nat) :
    (Expr.readWithin room m (List.replicate room ⟨.minus, "-"⟩)).result = .error .tooDeep := by
  induction room generalizing m with
  | zero => rfl
  | succ room ih =>
    have role : Kind.minus.prefixRule? = some (.operator .prefixed) := rfl
    rw [List.replicate_succ, Expr.readWithin_cons role]
    exact Outcome.result_andThen_of_error (Outcome.result_andThen_of_error (ih _))

/-- `-a)` is read with two levels and with all. A row of signs is too deep as soon as it is as long
as the limit. -/
theorem parse_of_not_tooDeep_negated :
    let tokens : List Token := [⟨.minus, "-"⟩, ⟨.name, "a"⟩, ⟨.rightParen, ")"⟩]
    let rest : List Token := [⟨.rightParen, ")"⟩]
    0 ≤ 254 ∧
    (Parser.mk tokens 254).parse 0 = (.ok (.prefixed .minus (.name "a")), ⟨rest, 254⟩) ∧
    (Parser.mk tokens 0).parse 0 = (.ok (.prefixed .minus (.name "a")), ⟨rest, 0⟩) ∧
    ((Parser.mk tokens 255).parse 0).1 = .error .tooDeep ∧
    (∃ r : Reader, r.Unlimited ∧
      r.operand 0 tokens = ⟨.ok (.prefixed .minus (.name "a")), rest⟩) ∧
    Expr.readAll (List.replicate 255 ⟨.minus, "-"⟩) ≠ .error .tooDeep ∧
    Expr.readAll (List.replicate 256 ⟨.minus, "-"⟩) = .error .tooDeep := by
  obtain ⟨shallower, ⟨r, unlimited, agrees⟩, few⟩ := parse_of_not_tooDeep
  have length (n : Nat) : (List.replicate n (⟨.minus, "-"⟩ : Token)).length = n :=
    List.length_replicate
  refine ⟨Nat.zero_le _, rfl, shallower _ 0 0 254 _ _ (Nat.zero_le _) rfl nofun, rfl,
    ⟨r, (unlimited r).mpr rfl, agrees ⟨_, 254⟩ _ 0 _ rfl nofun⟩, few _ ?_, ?_⟩
  · rw [length]
    decide
  · refine Expr.readAll_of_read_eq_error ?_ (readWithin_signs maxDepth 0)
    exact List.ne_nil_of_length_pos (Nat.lt_of_lt_of_eq (by decide) (length 256).symm)

end MathShorthand
