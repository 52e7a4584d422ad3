import MathShorthand.Proofs.Grammar.Limit

/-!
# Texts of tokens

Reading looks at the kinds of tokens only. If their texts are changed, the expressions are the same
with the names changed alike, and errors name the same tokens (`readAll_respell`). The one text that
reading makes up itself is the empty one at the end, which must not change.
-/

namespace MathShorthand

/-! ### Other texts -/

def Token.respell (f : String → String) (t : Token) : Token := ⟨t.kind, f t.text⟩

@[simp] theorem Token.kind_respell (f : String → String) (t : Token) :
    (t.respell f).kind = t.kind := rfl

namespace Expr

mutual

/-- The expression with its names changed. -/
def respell (f : String → String) : Expr → Expr
  | name text => name (f text)
  | prefixed op operand => prefixed op (operand.respell f)
  | postfixed op operand => postfixed op (operand.respell f)
  | binary op left right => binary op (left.respell f) (right.respell f)
  | bounded op bounds body => bounded op (respellAll f bounds) (body.respell f)

def respellAll (f : String → String) : List Expr → List Expr
  | [] => []
  | e :: es => e.respell f :: respellAll f es

end

end Expr

def ParseError.respell (f : String → String) : ParseError → ParseError
  | unexpected found => .unexpected (found.respell f)
  | expected wanted found => .expected wanted (found.respell f)
  | tooDeep => .tooDeep

/-- The outcome with other texts in what is left and in an error, and with `g` of what was read. -/
def Outcome.respell {α β : Type} (f : String → String) (g : α → β) (o : Outcome α) : Outcome β :=
  ⟨(o.result.map g).mapError (ParseError.respell f), o.rest.map (Token.respell f)⟩

namespace Outcome

variable {α β γ : Type} (f : String → String) {g : α → β}

@[simp] theorem respell_done (a : α) (rest : List Token) :
    (done a rest).respell f g = .done (g a) (rest.map (Token.respell f)) := rfl

theorem respell_andThen {δ : Type} {h : γ → δ} {o : Outcome α} {next : α → List Token → Outcome γ}
    {next' : β → List Token → Outcome δ}
    (then_ : ∀ a rest, next' (g a) (rest.map (Token.respell f)) = (next a rest).respell f h) :
    (o.respell f g).andThen next' = (o.andThen next).respell f h := by
  obtain ⟨e | a, rest⟩ := o
  · rfl
  · exact then_ a rest

end Outcome

/-! ### Reading them -/

variable {f : String → String} (at_end : f "" = "")
include at_end

theorem nextToken_respell (tokens : List Token) :
    nextToken (tokens.map (Token.respell f)) = (nextToken tokens).respell f := by
  cases tokens with
  | nil =>
    change Token.eof = (⟨.eof, f ""⟩ : Token)
    rw [at_end]
    rfl
  | cons t tokens => rfl

theorem kind_nextToken_respell (tokens : List Token) :
    (nextToken (tokens.map (Token.respell f))).kind = (nextToken tokens).kind := by
  rw [nextToken_respell at_end, Token.kind_respell]

theorem continuation?_respell (m : Nat) (tokens : List Token) :
    continuation? m (tokens.map (Token.respell f)) = continuation? m tokens := by
  unfold continuation?
  rw [kind_nextToken_respell at_end]

theorem expectToken_respell (wanted : Kind) (tokens : List Token) :
    expectToken wanted (tokens.map (Token.respell f)) =
      (expectToken wanted tokens).respell f (Token.respell f) := by
  unfold expectToken
  rw [nextToken_respell at_end, Token.kind_respell, ← List.map_tail]
  split <;> rfl

theorem readSeparator_respell (separator terminator : Kind) (tokens : List Token) :
    readSeparator separator terminator (tokens.map (Token.respell f)) =
      (readSeparator separator terminator tokens).respell f id := by
  unfold readSeparator
  rw [kind_nextToken_respell at_end]
  split
  · rfl
  · rw [expectToken_respell at_end]
    exact Outcome.respell_andThen f fun _ _ => rfl

/-- The reader makes of other texts what it makes of these, with the texts changed. -/
structure Reader.Respells (r : Reader) (f : String → String) : Prop where
  operand : ∀ m tokens, r.operand m (tokens.map (Token.respell f)) =
    (r.operand m tokens).respell f (Expr.respell f)
  chain : ∀ m left tokens, r.chain m (left.respell f) (tokens.map (Token.respell f)) =
    (r.chain m left tokens).respell f (Expr.respell f)

namespace Reader.Respells

variable {r : Reader} (respells : r.Respells f)
include respells

theorem readBoundsWithin (separator terminator : Kind) (limit : Nat) (tokens : List Token) :
    readBoundsWithin r.operand separator terminator limit (tokens.map (Token.respell f)) =
      (readBoundsWithin r.operand separator terminator limit tokens).respell f
        (Expr.respellAll f) := by
  induction limit generalizing tokens with
  | zero => rfl
  | succ limit ih =>
    unfold MathShorthand.readBoundsWithin
    rw [kind_nextToken_respell at_end]
    split
    · rfl
    · rw [respells.operand]
      refine Outcome.respell_andThen f fun bound rest => ?_
      rw [readSeparator_respell at_end]
      refine Outcome.respell_andThen f fun _ rest => ?_
      rw [ih]
      exact Outcome.respell_andThen f fun bounds rest => rfl

theorem prefixRule (rule : PrefixRule) (token : Token) (tokens : List Token) :
    rule.read r.operand (token.respell f) (tokens.map (Token.respell f)) =
      (rule.read r.operand token tokens).respell f (Expr.respell f) := by
  cases rule with
  | name => rfl
  | group close =>
    simp only [PrefixRule.read, respells.operand]
    refine Outcome.respell_andThen f fun inner rest => ?_
    rw [expectToken_respell at_end]
    exact Outcome.respell_andThen f fun _ rest => rfl
  | operator p =>
    simp only [PrefixRule.read, respells.operand]
    exact Outcome.respell_andThen f fun operand rest => rfl
  | bounded separator terminator =>
    simp only [PrefixRule.read, readBounds, List.length_map, respells.readBoundsWithin at_end]
    refine Outcome.respell_andThen f fun bounds rest => ?_
    rw [expectToken_respell at_end]
    refine Outcome.respell_andThen f fun _ rest => ?_
    rw [respells.operand]
    exact Outcome.respell_andThen f fun body rest => rfl

omit at_end in
theorem infixRule (rule : InfixRule) (left : Expr) (op : Token) (tokens : List Token) :
    rule.read r.operand (left.respell f) (op.respell f) (tokens.map (Token.respell f)) =
      (rule.read r.operand left op tokens).respell f (Expr.respell f) := by
  cases rule with
  | binary p a =>
    simp only [InfixRule.read, respells.operand]
    exact Outcome.respell_andThen f fun right rest => rfl
  | postfixed p => rfl

/-- A reader one level up does so if the one below does. -/
theorem levelUp : r.levelUp.Respells f where
  operand m tokens := by
    simp only [Reader.levelUp, nextToken_respell at_end, Token.kind_respell, ← List.map_tail]
    split
    · rfl
    · next rule _ =>
      rw [respells.prefixRule at_end]
      exact Outcome.respell_andThen f fun left rest => respells.chain m left rest
  chain m left tokens := by
    simp only [Reader.levelUp, continuation?_respell at_end, nextToken_respell at_end,
      ← List.map_tail]
    split
    · rfl
    · next rule _ =>
      rw [respells.infixRule]
      exact Outcome.respell_andThen f fun whole rest => respells.chain m whole rest

end Reader.Respells

theorem respells_within (room : Nat) : (Reader.within room).Respells f := by
  induction room with
  | zero =>
    refine ⟨fun m tokens => rfl, fun m left tokens => ?_⟩
    simp only [Reader.within, Expr.continueWithin, continuation?_respell at_end]
    cases continuation? m tokens <;> rfl
  | succ room ih =>
    rw [Reader.within_succ]
    exact ih.levelUp at_end

namespace Expr

theorem read_respell (m : Nat) (tokens : List Token) :
    read m (tokens.map (Token.respell f)) = (read m tokens).respell f (respell f) :=
  (respells_within at_end maxDepth).operand m tokens

/-- Whatever the texts of tokens are, they stand for the same expressions over other names, or fail
at the same token. -/
theorem readAll_respell (tokens : List Token) :
    readAll (tokens.map (Token.respell f)) =
      ((readAll tokens).map (respellAll f)).mapError (ParseError.respell f) := by
  fun_induction readAll tokens with
  | case1 =>
    rw [List.map_nil, readAll]
    rfl
  | case2 token tokens cause rest found =>
    have failed := congrArg Outcome.result (read_respell at_end 0 (token :: tokens))
    rw [found] at failed
    exact readAll_of_read_eq_error (List.cons_ne_nil _ _) failed
  | case3 token tokens e rest found progress cause failed ih =>
    have again := read_respell at_end 0 (token :: tokens)
    rw [found] at again
    rw [readAll_of_read_eq_done again, ih, failed]
    rfl
  | case4 token tokens e rest found progress es all ih =>
    have again := read_respell at_end 0 (token :: tokens)
    rw [found] at again
    rw [readAll_of_read_eq_done again, ih, all]
    rfl

end Expr

end MathShorthand
