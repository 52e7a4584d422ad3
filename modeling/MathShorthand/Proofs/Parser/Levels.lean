import MathShorthand.Proofs.Parser.Machine

/-!
# Open levels and calls under way

Every call of an expression opened a level, so no more of them are under way than levels were
opened since the machine began (`Machine.Bounded.active_le`). The count of levels is one above the
limit only while an error is given back, as nothing but an error comes of a level too many.
-/

namespace MathShorthand

open StateTransition

def Call.isExpression : Call → Bool
  | expression _ _ => true
  | _ => false

/-- The call began with at least `least` levels open and with no level too many. -/
def Call.BeganFrom (least : Nat) : Call → Prop
  | expression before _ => least ≤ before ∧ before ≤ maxDepth
  | _ => True

/-- The most levels that can be open. -/
def Control.limit : Control → Nat
  | give (.error _) => maxDepth + 1
  | _ => maxDepth

theorem Control.le_limit (c : Control) : maxDepth ≤ c.limit := by
  unfold limit
  split
  · exact Nat.le_succ _
  · exact Nat.le_refl _

namespace Machine

/-- The calls of `Parser.parse` among `calls`. -/
def expressions (calls : List Call) : Nat := calls.countP Call.isExpression

/-- How many calls of `Parser.parse` are under way. -/
def active (m : Machine) : Nat := expressions m.calls

/-- Every expression began above the levels of the expressions around it. -/
def Nested (base : Nat) : List Call → Prop
  | [] => True
  | call :: calls => call.BeganFrom (base + expressions calls) ∧ Nested base calls

/-- What holds of every machine that began with `base` levels open. -/
structure Bounded (base : Nat) (m : Machine) : Prop where
  nested : Nested base m.calls
  least : base + m.active ≤ m.parser.depth
  most : m.parser.depth ≤ m.control.limit

variable {base : Nat} {control : Control} {calls : List Call} {p q : Parser}

theorem bounded_cons {call : Call} (plain : call.isExpression = false) :
    Bounded base ⟨control, call :: calls, p⟩ ↔ Bounded base ⟨control, calls, p⟩ := by
  have began : call.BeganFrom (base + expressions calls) := by
    cases call <;> first | exact absurd plain (by decide) | trivial
  have same : expressions (call :: calls) = expressions calls := by
    rw [expressions, List.countP_cons_of_neg (by rw [plain]; decide), expressions]
  constructor
  · rintro ⟨⟨-, nested⟩, least, most⟩
    exact ⟨nested, by simpa only [active, same] using least, most⟩
  · rintro ⟨nested, least, most⟩
    exact ⟨⟨began, nested⟩, by simpa only [active, same] using least, most⟩

/-- If no level is one too many, whatever is done next keeps within the bounds. -/
theorem Bounded.next (bounded : Bounded base ⟨control, calls, p⟩) (calm : control.limit = maxDepth)
    (control' : Control) (tokens : List Token) :
    Bounded base ⟨control', calls, ⟨tokens, p.depth⟩⟩ where
  nested := bounded.nested
  least := bounded.least
  most := (calm ▸ bounded.most).trans control'.le_limit

theorem Bounded.push (bounded : Bounded base ⟨control, calls, p⟩) (calm : control.limit = maxDepth)
    {call : Call} (plain : call.isExpression = false) (rank : Nat) (tokens : List Token) :
    Bounded base ⟨.read rank, call :: calls, ⟨tokens, p.depth⟩⟩ :=
  (bounded_cons plain).mpr (bounded.next calm _ tokens)

theorem Bounded.expect {wanted : Kind} {next : Token → Parser → Machine}
    (bounded : Bounded base ⟨control, calls, p⟩) (calm : control.limit = maxDepth)
    (goes_on : ∀ token tokens, Bounded base (next token ⟨tokens, p.depth⟩)) :
    Bounded base (orGive calls next (p.expect wanted)) := by
  unfold Parser.expect Parser.after
  obtain ⟨cause | token, rest⟩ := expectToken wanted p.tokens
  · exact bounded.next calm _ rest
  · exact goes_on token rest

/-- One level more is open, or the error that it is one too many is given. -/
theorem bounded_descend {next : Unit → Parser → Machine} (nested : Nested base calls)
    (least : base + expressions calls ≤ p.depth + 1) (most : p.depth ≤ maxDepth)
    (goes_on : ∀ q : Parser, (∀ control tokens, Bounded base ⟨control, calls, ⟨tokens, q.depth⟩⟩) →
      Bounded base (next () q)) :
    Bounded base (orGive calls next p.descend) := by
  obtain ⟨tokens, depth⟩ := p
  -- a level too many is counted as well, which is why an error has the higher limit
  by_cases free : depth < maxDepth
  · rw [Parser.descend_of_lt free]
    refine goes_on _ fun control tokens => ⟨nested, least, ?_⟩
    exact (Nat.succ_le_of_lt free).trans control.le_limit
  · rw [Parser.descend_of_le (Nat.not_lt.mp free)]
    exact ⟨nested, least, Nat.succ_le_succ most⟩

theorem expressions_expression (depth rank : Nat) (calls : List Call) :
    expressions (.expression depth rank :: calls) = expressions calls + 1 :=
  List.countP_cons_of_pos rfl

/-! ### Steps -/

theorem bounded_enter {rank : Nat} (bounded : Bounded base ⟨.read rank, calls, p⟩) :
    Bounded base (enter rank calls p) := by
  obtain ⟨nested, least, most⟩ := bounded
  have more : base + expressions (.expression p.depth rank :: calls) ≤ p.depth + 1 := by
    rw [expressions_expression]
    exact Nat.succ_le_succ least
  refine bounded_descend ⟨⟨least, most⟩, nested⟩ more most fun q inside => ?_
  split <;> exact inside _ _

theorem bounded_start {rule : PrefixRule} {token : Token}
    (bounded : Bounded base ⟨.start rule token, calls, p⟩) :
    Bounded base (start token calls p rule) := by
  cases rule with
  | name => exact bounded.next rfl _ _
  | group close => exact bounded.push rfl rfl _ _
  | operator precedence => exact bounded.push rfl rfl _ _
  | bounded separator terminator => exact bounded.next rfl _ _

theorem bounded_bounds {separator terminator op : Kind} {made : List Expr}
    (bounded : Bounded base ⟨.bounds separator terminator op made, calls, p⟩) :
    Bounded base (bounds separator terminator op made calls p) := by
  unfold bounds
  split
  · exact bounded.expect rfl fun _ _ => bounded.push rfl rfl _ _
  · exact bounded.push rfl rfl _ _

theorem bounded_link {rule : InfixRule} {left : Expr} {token : Token}
    (bounded : Bounded base ⟨.link rule left token, calls, p⟩) :
    Bounded base (link left token calls p rule) := by
  cases rule with
  | binary precedence associativity => exact bounded.push rfl rfl _ _
  | postfixed precedence => exact bounded.next rfl _ _

theorem bounded_goOn {depth rank : Nat} {left : Expr}
    (bounded : Bounded base ⟨.give (.ok left), .expression depth rank :: calls, p⟩) :
    Bounded base (goOn depth rank left calls p) := by
  obtain ⟨⟨began, nested⟩, least, most⟩ := bounded
  unfold goOn
  split
  · exact ⟨nested, began.1, began.2⟩
  · exact bounded_descend ⟨began, nested⟩ (Nat.le_succ_of_le least) most fun q inside => inside _ _

theorem bounded_resume {call : Call} {e : Expr}
    (bounded : Bounded base ⟨.give (.ok e), call :: calls, p⟩) :
    Bounded base (resume e calls p call) := by
  cases call with
  | expression depth rank => exact bounded_goOn bounded
  | group close =>
    have bounded := (bounded_cons rfl).mp bounded
    exact bounded.expect rfl fun _ _ => bounded.next rfl _ _
  | bound separator terminator op made =>
    have bounded := (bounded_cons rfl).mp bounded
    rw [resume]
    split
    · exact bounded.next rfl _ _
    · exact bounded.expect rfl fun _ _ => bounded.next rfl _ _
  | operand op => exact ((bounded_cons rfl).mp bounded).next rfl _ _
  | body op bounds => exact ((bounded_cons rfl).mp bounded).next rfl _ _
  | right op left => exact ((bounded_cons rfl).mp bounded).next rfl _ _

theorem bounded_leave {call : Call} {cause : ParseError}
    (bounded : Bounded base ⟨.give (.error cause), call :: calls, p⟩) :
    Bounded base ⟨.give (.error cause), calls, ⟨p.tokens, call.leave p.depth⟩⟩ := by
  cases call with
  | expression depth rank =>
    obtain ⟨⟨⟨least, most⟩, nested⟩, -, -⟩ := bounded
    exact ⟨nested, least, Nat.le_succ_of_le most⟩
  | _ => exact (bounded_cons rfl).mp bounded

theorem Bounded.step {m m' : Machine} (bounded : Bounded base m) (steps : m.step = some m') :
    Bounded base m' := by
  obtain ⟨control, calls, p⟩ := m
  cases control with
  | read rank => exact Option.some.inj steps ▸ bounded_enter bounded
  | start rule token => exact Option.some.inj steps ▸ bounded_start bounded
  | bounds separator terminator op made => exact Option.some.inj steps ▸ bounded_bounds bounded
  | link rule left token => exact Option.some.inj steps ▸ bounded_link bounded
  | give result =>
    cases calls with
    | nil => cases result <;> exact nomatch steps
    | cons call calls =>
      cases result with
      | ok e => exact Option.some.inj steps ▸ bounded_resume bounded
      | error cause => exact Option.some.inj steps ▸ bounded_leave bounded

theorem Bounded.reaches {m m' : Machine} (bounded : Bounded base m)
    (run : Reaches Machine.step m m') : Bounded base m' := by
  induction run with
  | refl => exact bounded
  | tail _ steps ih => exact ih.step steps

theorem Bounded.depth_le {m : Machine} (bounded : Bounded base m) :
    m.parser.depth ≤ maxDepth + 1 := by
  refine bounded.most.trans ?_
  unfold Control.limit
  split
  · exact Nat.le_refl _
  · exact Nat.le_succ _

theorem Bounded.active_le {m : Machine} (bounded : Bounded base m) :
    m.active ≤ maxDepth + 1 - base := by
  have least := bounded.least
  have most := bounded.depth_le
  omega

theorem bounded_read (rank : Nat) (most : p.depth ≤ maxDepth) :
    Bounded p.depth ⟨.read rank, [], p⟩ :=
  ⟨trivial, Nat.le_refl _, most⟩

end Machine

end MathShorthand
