import Mathlib.Computability.StateTransition
import MathShorthand.Parser.State
import MathShorthand.Proofs.Grammar.Bounds

/-!
# Parsing step by step

Reading an expression calls itself through the rules, and through the rules its operands. Here
the calls under way are a list and the open levels a number that every step counts up or puts
back by itself: an expression and each link of its chain open one, an error leaves it as it is,
and an expression that ends, well or badly, puts back the number that it found. From every parser
the machine comes to rest with what `Parser.parse`, `Parser.parsePrefix` and `Parser.parseInfix`
give (`Machine.eval_read`, `Machine.eval_start`, `Machine.eval_link`), so it never runs on.
-/

namespace MathShorthand

/-- A call that waits for the expression it asked for. -/
inductive Call where
  /-- An expression of operators that bind tighter than `rank`, begun with `depth` levels open. -/
  | expression (depth rank : Nat)
  | group (close : Kind)
  | operand (op : Kind)
  /-- An operator with bounds that has the bounds `made` and asked for one more. -/
  | bound (separator terminator op : Kind) (made : List Expr)
  | body (op : Kind) (bounds : List Expr)
  | right (op : Kind) (left : Expr)

/-- The number of open levels after a call that ends with `depth` of them open. -/
def Call.leave (depth : Nat) : Call → Nat
  | expression before _ => before
  | _ => depth

inductive Control where
  | read (rank : Nat)
  | start (rule : PrefixRule) (token : Token)
  /-- Look whether the bounds `made` are all that `op` has. -/
  | bounds (separator terminator op : Kind) (made : List Expr)
  | link (rule : InfixRule) (left : Expr) (token : Token)
  | give (result : Except ParseError Expr)

theorem Parser.peek_mk (tokens : List Token) (depth : Nat) :
    Parser.peek ⟨tokens, depth⟩ = nextToken tokens := rfl

/-- Open a level. It counts as open also if it is one too many. -/
def Parser.descend (p : Parser) : Except ParseError Unit × Parser :=
  (if maxDepth < p.depth + 1 then .error .tooDeep else .ok (), ⟨p.tokens, p.depth + 1⟩)

theorem Parser.descend_of_lt {depth : Nat} (free : depth < maxDepth) (tokens : List Token) :
    descend ⟨tokens, depth⟩ = (.ok (), ⟨tokens, depth + 1⟩) := by
  rw [descend, if_neg (Nat.not_lt.mpr free)]

theorem Parser.descend_of_le {depth : Nat} (full : maxDepth ≤ depth) (tokens : List Token) :
    descend ⟨tokens, depth⟩ = (.error .tooDeep, ⟨tokens, depth + 1⟩) := by
  rw [descend, if_pos (Nat.lt_succ_of_le full)]

/-- A parser at work. The first of the calls is the one that is served. -/
structure Machine where
  control : Control
  calls : List Call
  parser : Parser

namespace Machine

/-- Go on with a success as `next` says, and give an error to the first of the calls. -/
def orGive {α : Type} (calls : List Call) (next : α → Parser → Machine) :
    Except ParseError α × Parser → Machine
  | (.ok a, p) => next a p
  | (.error cause, p) => ⟨.give (.error cause), calls, p⟩

def enter (rank : Nat) (calls : List Call) (p : Parser) : Machine :=
  let inside := .expression p.depth rank :: calls
  p.descend |> orGive inside fun _ p =>
    -- the first token is taken even if it starts no expression
    match p.peek.kind.prefixRule? with
    | none => ⟨.give (.error (.unexpected p.peek)), inside, p.consume.2⟩
    | some rule => ⟨.start rule p.consume.1, inside, p.consume.2⟩

def start (token : Token) (calls : List Call) (p : Parser) : PrefixRule → Machine
  | .name => ⟨.give (.ok (.name token.text)), calls, p⟩
  | .group close => ⟨.read 0, .group close :: calls, p⟩
  | .operator precedence => ⟨.read precedence.rank, .operand token.kind :: calls, p⟩
  | .bounded separator terminator => ⟨.bounds separator terminator token.kind [], calls, p⟩

def bounds (separator terminator op : Kind) (made : List Expr) (calls : List Call) (p : Parser) :
    Machine :=
  if p.peek.kind = terminator then
    p.expect terminator |> orGive calls fun _ p => ⟨.read 0, .body op made :: calls, p⟩
  else ⟨.read 0, .bound separator terminator op made :: calls, p⟩

def link (left : Expr) (token : Token) (calls : List Call) (p : Parser) : InfixRule → Machine
  | .binary precedence associativity =>
    ⟨.read (associativity.rightRank precedence), .right token.kind left :: calls, p⟩
  | .postfixed _ => ⟨.give (.ok (.postfixed token.kind left)), calls, p⟩

/-- An expression that has come to `left` ends, or goes on with the next operator. -/
def goOn (depth rank : Nat) (left : Expr) (calls : List Call) (p : Parser) : Machine :=
  match continuation? rank p.tokens with
  | none => ⟨.give (.ok left), calls, ⟨p.tokens, depth⟩⟩
  | some rule =>
    let inside := .expression depth rank :: calls
    p.descend |> orGive inside fun _ p => ⟨.link rule left p.consume.1, inside, p.consume.2⟩

def resume (e : Expr) (calls : List Call) (p : Parser) : Call → Machine
  | .expression depth rank => goOn depth rank e calls p
  | .group close => p.expect close |> orGive calls fun _ p => ⟨.give (.ok e), calls, p⟩
  | .operand op => ⟨.give (.ok (.prefixed op e)), calls, p⟩
  | .bound separator terminator op made =>
    let more := Control.bounds separator terminator op (made ++ [e])
    if p.peek.kind = terminator then ⟨more, calls, p⟩
    else p.expect separator |> orGive calls fun _ p => ⟨more, calls, p⟩
  | .body op bounds => ⟨.give (.ok (.bounded op bounds e)), calls, p⟩
  | .right op left => ⟨.give (.ok (.binary op left e)), calls, p⟩

def step : Machine → Option Machine
  | ⟨.read rank, calls, p⟩ => some (enter rank calls p)
  | ⟨.start rule token, calls, p⟩ => some (start token calls p rule)
  | ⟨.bounds separator terminator op made, calls, p⟩ =>
    some (bounds separator terminator op made calls p)
  | ⟨.link rule left token, calls, p⟩ => some (link left token calls p rule)
  | ⟨.give (.ok e), call :: calls, p⟩ => some (resume e calls p call)
  | ⟨.give (.error cause), call :: calls, p⟩ =>
    some ⟨.give (.error cause), calls, ⟨p.tokens, call.leave p.depth⟩⟩
  | ⟨.give _, [], _⟩ => none

open StateTransition

/-- The first of the calls gets the outcome `o` with `depth` levels open. -/
def given (calls : List Call) (depth : Nat) (o : Outcome Expr) : Machine :=
  ⟨.give o.result, calls, ⟨o.rest, depth⟩⟩

/-- Whatever calls the machine for an operand gets what `operand` reads. -/
def Serves (depth : Nat) (operand : OperandReader) : Prop :=
  ∀ rank calls tokens, Reaches step ⟨.read rank, calls, ⟨tokens, depth⟩⟩
    (given calls depth (operand rank tokens))

/-- An expression that has come to `left` gives what `chain` reads, and puts back the levels that
it found. -/
def Continues (depth : Nat) (chain : Nat → Expr → List Token → Outcome Expr) : Prop :=
  ∀ before rank left calls tokens,
    Reaches step ⟨.give (.ok left), .expression before rank :: calls, ⟨tokens, depth⟩⟩
      (given calls before (chain rank left tokens))

variable {calls : List Call} {depth : Nat}

/-! ### One call after another -/

theorem reaches_andThen {call : Call} {o : Outcome Expr}
    {next : Expr → List Token → Outcome Expr}
    (resumed : ∀ e rest, o = .done e rest →
      Reaches step ⟨.give (.ok e), call :: calls, ⟨rest, depth⟩⟩
        (given calls (call.leave depth) (next e rest))) :
    Reaches step (given (call :: calls) depth o)
      (given calls (call.leave depth) (o.andThen next)) := by
  obtain ⟨cause | e, rest⟩ := o
  · exact .single rfl
  · exact resumed e rest rfl

theorem reaches_orGive {α : Type} {o : Outcome α} {next : α → Parser → Machine}
    {then_ : α → List Token → Outcome Expr}
    (goes_on : ∀ a rest, o = .done a rest →
      Reaches step (next a ⟨rest, depth⟩) (given calls depth (then_ a rest))) :
    Reaches step (orGive calls next (o.result, ⟨o.rest, depth⟩))
      (given calls depth (o.andThen then_)) := by
  obtain ⟨cause | a, rest⟩ := o
  · exact .refl
  · exact goes_on a rest rfl

/-! ### Rules -/

variable {operand : OperandReader}

/-- What is read of an operator from its bounds on, after the bounds `made`. -/
def readFromBounds (operand : OperandReader) (separator terminator op : Kind) (made : List Expr)
    (tokens : List Token) : Outcome Expr :=
  (readBounds operand separator terminator tokens).andThen fun bounds tokens =>
  (expectToken terminator tokens).andThen fun _ tokens =>
  (operand 0 tokens).andThen fun body tokens =>
  .done (.bounded op (made ++ bounds) body) tokens

theorem readFromBounds_of_starts (takes : TakesSome operand) {separator terminator op : Kind}
    {made : List Expr} {tokens : List Token} (starts : (nextToken tokens).kind ≠ terminator) :
    readFromBounds operand separator terminator op made tokens =
      (operand 0 tokens).andThen fun bound tokens =>
      (readSeparator separator terminator tokens).andThen fun _ tokens =>
      readFromBounds operand separator terminator op (made ++ [bound]) tokens := by
  simp only [readFromBounds, readBounds_of_starts takes starts, readMoreBounds,
    Outcome.andThen_assoc, Outcome.done, Outcome.ok_andThen, List.append_assoc,
    List.singleton_append]

theorem reaches_body (serves : Serves depth operand) (op : Kind) (bounds : List Expr)
    (tokens : List Token) :
    Reaches step ⟨.read 0, .body op bounds :: calls, ⟨tokens, depth⟩⟩
      (given calls depth ((operand 0 tokens).andThen fun body tokens =>
        .done (.bounded op bounds body) tokens)) :=
  (serves 0 _ tokens).trans (reaches_andThen fun _ _ _ => .single rfl)

theorem reaches_separator {separator terminator op : Kind} {made : List Expr} {bound : Expr}
    {tokens : List Token} {then_ : List Token → Outcome Expr}
    (goes_on : ∀ rest, rest.length ≤ tokens.length →
      Reaches step ⟨.bounds separator terminator op (made ++ [bound]), calls, ⟨rest, depth⟩⟩
        (given calls depth (then_ rest))) :
    Reaches step
      ⟨.give (.ok bound), .bound separator terminator op made :: calls, ⟨tokens, depth⟩⟩
      (given calls depth ((readSeparator separator terminator tokens).andThen fun _ => then_)) := by
  refine .head rfl ?_
  by_cases stop : (nextToken tokens).kind = terminator
  · rw [readSeparator, if_pos stop, resume, Parser.peek_mk, if_pos stop]
    exact goes_on tokens (Nat.le_refl _)
  · rw [readSeparator, if_neg stop, Outcome.andThen_assoc, resume, Parser.peek_mk, if_neg stop]
    refine reaches_orGive fun token rest found => goes_on rest ?_
    have suffix := rest_expectToken_suffix separator tokens
    rw [found] at suffix
    exact suffix.length_le

/-- Every bound takes a token, so the bounds come to an end. -/
theorem reaches_bounds (serves : Serves depth operand) (takes : TakesSome operand)
    (separator terminator op : Kind) (made : List Expr) (tokens : List Token) :
    Reaches step ⟨.bounds separator terminator op made, calls, ⟨tokens, depth⟩⟩
      (given calls depth (readFromBounds operand separator terminator op made tokens)) := by
  induction len : tokens.length using Nat.strongRecOn generalizing made tokens with
  | ind n ih =>
    refine .head rfl ?_
    unfold bounds
    split
    case isTrue stop =>
      -- no bound is left, and the token that ends them comes next
      rw [readFromBounds, readBounds_of_stop operand separator stop, Outcome.done,
        Outcome.ok_andThen, List.append_nil]
      exact reaches_orGive fun _ rest _ => reaches_body serves op made rest
    case isFalse starts =>
      rw [readFromBounds_of_starts takes starts]
      refine (serves 0 _ tokens).trans (reaches_andThen fun bound rest read => ?_)
      refine reaches_separator fun rest' le => ?_
      have shorter := takes 0 tokens bound rest read
      exact ih rest'.length (by omega) _ rest' rfl

theorem reaches_start (serves : Serves depth operand) (takes : TakesSome operand)
    (rule : PrefixRule) (token : Token) (tokens : List Token) :
    Reaches step ⟨.start rule token, calls, ⟨tokens, depth⟩⟩
      (given calls depth (rule.read operand token tokens)) := by
  refine .head rfl ?_
  cases rule with
  | name => exact .refl
  | group close =>
    refine (serves 0 _ tokens).trans (reaches_andThen fun inner rest _ => .head rfl ?_)
    exact reaches_orGive fun _ _ _ => .refl
  | operator precedence =>
    exact (serves _ _ tokens).trans (reaches_andThen fun _ _ _ => .single rfl)
  | bounded separator terminator =>
    exact reaches_bounds serves takes separator terminator token.kind [] tokens

theorem reaches_link (serves : Serves depth operand) (rule : InfixRule) (left : Expr)
    (token : Token) (tokens : List Token) :
    Reaches step ⟨.link rule left token, calls, ⟨tokens, depth⟩⟩
      (given calls depth (rule.read operand left token tokens)) := by
  refine .head rfl ?_
  cases rule with
  | binary precedence associativity =>
    exact (serves _ _ tokens).trans (reaches_andThen fun _ _ _ => .single rfl)
  | postfixed precedence => exact .refl

/-! ### Expressions -/

theorem serves_zero (full : maxDepth ≤ depth) : Serves depth (Expr.readWithin 0) := by
  intro rank calls tokens
  refine .head rfl ?_
  rw [enter, Parser.descend_of_le full]
  exact .single rfl

theorem continues_zero (full : maxDepth ≤ depth) : Continues depth (Expr.continueWithin 0) := by
  intro before rank left calls tokens
  refine .head rfl ?_
  cases next : continuation? rank tokens with
  | none =>
    simp only [resume, goOn, Expr.continueWithin, next]
    exact .refl
  | some rule =>
    simp only [resume, goOn, Expr.continueWithin, next, Parser.descend_of_le full]
    exact .single rfl

theorem serves_succ {room : Nat} (free : depth < maxDepth)
    (serves : Serves (depth + 1) (Expr.readWithin room))
    (continues : Continues (depth + 1) (Expr.continueWithin room)) :
    Serves depth (Expr.readWithin (room + 1)) := by
  intro rank calls tokens
  refine .head rfl ?_
  rw [enter, Parser.descend_of_lt free, orGive, Parser.peek_mk]
  cases starts : (nextToken tokens).kind.prefixRule? with
  | none =>
    simp only [Expr.readWithin, starts]
    exact .single rfl
  | some rule =>
    simp only [Expr.readWithin, starts]
    refine (reaches_start serves (takesSome_readWithin room) _ _ _).trans ?_
    exact reaches_andThen fun left rest _ => continues _ rank left _ rest

theorem continues_succ {room : Nat} (free : depth < maxDepth)
    (serves : Serves (depth + 1) (Expr.readWithin room))
    (continues : Continues (depth + 1) (Expr.continueWithin room)) :
    Continues depth (Expr.continueWithin (room + 1)) := by
  intro before rank left calls tokens
  refine .head rfl ?_
  cases next : continuation? rank tokens with
  | none =>
    simp only [resume, goOn, Expr.continueWithin, next]
    exact .refl
  | some rule =>
    simp only [resume, goOn, Expr.continueWithin, next, Parser.descend_of_lt free, orGive]
    refine (reaches_link serves _ left _ _).trans ?_
    exact reaches_andThen fun left rest _ => continues _ rank left _ rest

theorem serves_room (depth : Nat) :
    Serves depth (Expr.readWithin (maxDepth - depth)) ∧
      Continues depth (Expr.continueWithin (maxDepth - depth)) := by
  -- a level more is open inside, so the room is less by one there
  induction room : maxDepth - depth generalizing depth with
  | zero =>
    have full : maxDepth ≤ depth := by omega
    exact ⟨serves_zero full, continues_zero full⟩
  | succ room ih =>
    have free : depth < maxDepth := by omega
    obtain ⟨serves, continues⟩ := ih (depth + 1) (by omega)
    exact ⟨serves_succ free serves continues, continues_succ free serves continues⟩

/-! ### Whole runs -/

/-- The machine that has come to `answer`. -/
def returned (answer : Except ParseError Expr × Parser) : Machine := ⟨.give answer.1, [], answer.2⟩

theorem eval_of_reaches {m : Machine} {p : Parser} {o : Outcome Expr}
    (reaches : Reaches step m (given [] p.depth o)) :
    eval step m = Part.some (returned (p.after o)) := by
  rw [Part.eq_some_iff]
  refine mem_eval.mpr ⟨reaches, ?_⟩
  obtain ⟨_ | _, _⟩ := o <;> rfl

theorem eval_read (p : Parser) (rank : Nat) :
    eval step ⟨.read rank, [], p⟩ = Part.some (returned (p.parse rank)) :=
  eval_of_reaches ((serves_room p.depth).1 rank [] p.tokens)

theorem eval_start (p : Parser) (rule : PrefixRule) (token : Token) :
    eval step ⟨.start rule token, [], p⟩ = Part.some (returned (p.parsePrefix rule token)) :=
  eval_of_reaches
    (reaches_start (serves_room p.depth).1 (takesSome_readWithin _) rule token p.tokens)

theorem eval_link (p : Parser) (rule : InfixRule) (left : Expr) (token : Token) :
    eval step ⟨.link rule left token, [], p⟩ =
      Part.some (returned (p.parseInfix rule left token)) :=
  eval_of_reaches (reaches_link (serves_room p.depth).1 rule left token p.tokens)

end Machine

end MathShorthand
