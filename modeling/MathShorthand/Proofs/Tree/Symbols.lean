import MathShorthand.Proofs.Tree.Writable

/-!
# Operators without a symbol

To write a tree its operators are gone through in a fixed order (`Expr.occurrences`), an operator
over bounds before its operands and any other after them. The first one that has no symbol for where
it stands is the error of the whole tree, and without such a one there is no error
(`latex_eq_error_iff_first`).
-/

namespace MathShorthand

/-- An operator and where it stands among its operands. -/
@[ext] structure Occurrence where
  op : Kind
  position : Position
  deriving DecidableEq

/-- The operators that can be written in a position. -/
def Position.operators : Position → List Kind
  | before => [.escape, .sub, .super, .plus, .minus]
  | after => [.hat, .vector]
  | between =>
    [.sub, .super, .divide, .plus, .minus, .times, .looseTimes, .equal, .geq, .leq, .neq, .approx,
      .upTo]
  | overBounds => [.integral, .sum, .product]

namespace Occurrence

/-- The operator can be written where it stands. -/
def Supported (o : Occurrence) : Prop := o.op ∈ o.position.operators

instance (o : Occurrence) : Decidable o.Supported := inferInstanceAs (Decidable (_ ∈ _))

/-- The error of an operator that cannot. -/
def error (o : Occurrence) : LatexError := .noSymbol o.op o.position

end Occurrence

namespace Expr

mutual

/-- The operators of a tree in the order in which they are given their symbols. -/
def occurrences : Expr → List Occurrence
  | name _ => []
  | prefixed op operand => operand.occurrences ++ [⟨op, .before⟩]
  | postfixed op operand => operand.occurrences ++ [⟨op, .after⟩]
  | binary op left right => left.occurrences ++ (right.occurrences ++ [⟨op, .between⟩])
  | bounded op bounds body =>
    ⟨op, .overBounds⟩ :: (occurrencesAll bounds ++ body.occurrences)

def occurrencesAll : List Expr → List Occurrence
  | [] => []
  | e :: es => e.occurrences ++ occurrencesAll es

end

end Expr

/-! ### The first error -/

/-- Writing fails at the first of the operators that cannot be written, and only there. -/
def FailsFirst {α : Type} (written : Except LatexError α) (os : List Occurrence) : Prop :=
  match os.find? (fun o => ¬o.Supported) with
  | none => ∃ a, written = .ok a
  | some o => written = .error o.error

section

variable {α β : Type} {x : Except LatexError α} {os os' : List Occurrence} {o : Occurrence}

theorem failsFirst_ok (a : α) : FailsFirst (.ok a) [] := ⟨a, rfl⟩

theorem failsFirst_singleton
    (fails : if o.Supported then ∃ a, x = .ok a else x = .error o.error) : FailsFirst x [o] := by
  unfold FailsFirst
  rw [List.find?_singleton]
  by_cases supported : o.Supported
  · rw [if_pos supported] at fails
    rwa [if_neg (by simpa using supported)]
  · rw [if_neg supported] at fails
    rwa [if_pos (by simpa using supported)]

theorem FailsFirst.bind {next : α → Except LatexError β} (first : FailsFirst x os)
    (then_ : ∀ a, FailsFirst (next a) os') : FailsFirst (x >>= next) (os ++ os') := by
  unfold FailsFirst at first
  split at first
  · next none_before =>
    obtain ⟨a, rfl⟩ := first
    unfold FailsFirst
    rw [List.find?_append, none_before, Option.none_or]
    exact then_ a
  · next o found =>
    subst first
    unfold FailsFirst
    rw [List.find?_append, found, Option.some_or]
    rfl

theorem FailsFirst.map (first : FailsFirst x os) (f : α → β) :
    FailsFirst (x >>= fun a => .ok (f a)) os := by
  have whole := first.bind fun a => failsFirst_ok (f a)
  rwa [List.append_nil] at whole

/-- An operator that can be written may be left out or gone through. -/
theorem FailsFirst.insert (fails : FailsFirst x (os ++ os')) (supported : o.Supported) :
    FailsFirst x (os ++ o :: os') := by
  unfold FailsFirst at fails ⊢
  rw [List.find?_append] at fails ⊢
  rwa [List.find?_cons_of_neg (by simpa using supported)]

theorem FailsFirst.exists_ok_iff (fails : FailsFirst x os) :
    (∃ a, x = .ok a) ↔ ∀ o ∈ os, o.Supported := by
  unfold FailsFirst at fails
  split at fails
  · next none =>
    rw [List.find?_eq_none] at none
    exact iff_of_true fails (by simpa using none)
  · next o found =>
    subst fails
    have unsupported : ¬o.Supported := by simpa using List.find?_some found
    refine iff_of_false nofun fun all => ?_
    exact unsupported (all o (List.mem_of_find?_eq_some found))

theorem FailsFirst.eq_error_iff (fails : FailsFirst x os) (o : Occurrence) :
    x = .error o.error ↔
      ∃ before after, os = before ++ o :: after ∧ (∀ o ∈ before, o.Supported) ∧ ¬o.Supported := by
  have first_iff : os.find? (fun o => ¬o.Supported) = some o ↔
      ∃ before after, os = before ++ o :: after ∧ (∀ o ∈ before, o.Supported) ∧ ¬o.Supported := by
    rw [List.find?_eq_some_iff_append]
    constructor
    · rintro ⟨unsupported, before, after, split, all⟩
      exact ⟨before, after, split, by simpa using all, by simpa using unsupported⟩
    · rintro ⟨before, after, split, all, unsupported⟩
      exact ⟨by simpa using unsupported, before, after, split, by simpa using all⟩
  rw [← first_iff]
  unfold FailsFirst at fails
  split at fails
  · next none =>
    obtain ⟨a, rfl⟩ := fails
    rw [none]
    exact iff_of_false nofun nofun
  · next first found =>
    subst fails
    rw [found]
    simp [Occurrence.error, Occurrence.ext_iff]

end

namespace Kind

theorem failsFirst_latexBefore (op : Kind) (operand : String) :
    FailsFirst (op.latexBefore operand) [⟨op, .before⟩] := by
  apply failsFirst_singleton
  cases op <;> simp [Occurrence.Supported, Position.operators, latexBefore, Occurrence.error]

theorem failsFirst_latexAfter (op : Kind) (operand : String) :
    FailsFirst (op.latexAfter operand) [⟨op, .after⟩] := by
  apply failsFirst_singleton
  cases op <;> simp [Occurrence.Supported, Position.operators, latexAfter, Occurrence.error]

theorem failsFirst_latexBetween (op : Kind) (left right : String) :
    FailsFirst (op.latexBetween left right) [⟨op, .between⟩] := by
  apply failsFirst_singleton
  cases op <;> simp [Occurrence.Supported, Position.operators, latexBetween, infixSymbol?,
    Occurrence.error]

/-- The symbol of an operator over bounds, or its error. -/
def boundedSymbol (op : Kind) : Except LatexError String :=
  op.boundedSymbol?.elim (.error (.noSymbol op .overBounds)) .ok

theorem failsFirst_boundedSymbol (op : Kind) :
    FailsFirst op.boundedSymbol [⟨op, .overBounds⟩] := by
  apply failsFirst_singleton
  cases op <;> simp [Occurrence.Supported, Position.operators, boundedSymbol, boundedSymbol?,
    Occurrence.error]

end Kind

namespace Expr

theorem latex_bounded (op : Kind) (bounds : List Expr) (body : Expr) :
    (bounded op bounds body).latex = (do
      let symbol ← op.boundedSymbol
      let texts ← latexBounds symbol bounds
      let last ← body.latex
      .ok ((if texts.isEmpty then symbol else " ".intercalate texts) ++ " " ++ last)) := by
  rw [latex, Kind.boundedSymbol]
  cases op.boundedSymbol? <;> rfl

mutual

theorem failsFirst_latex (e : Expr) : FailsFirst e.latex e.occurrences := by
  match e with
  | name text => exact failsFirst_ok text
  | prefixed op operand => exact (failsFirst_latex operand).bind op.failsFirst_latexBefore
  | postfixed op operand => exact (failsFirst_latex operand).bind op.failsFirst_latexAfter
  | binary op left right =>
    rw [latex]
    exact (failsFirst_latex left).bind fun l => (failsFirst_latex right).bind fun r =>
      op.failsFirst_latexBetween l r
  | bounded op bounds body =>
    rw [latex_bounded]
    refine op.failsFirst_boundedSymbol.bind fun symbol => ?_
    exact (failsFirst_latexBounds symbol bounds).bind fun texts => (failsFirst_latex body).map _

theorem failsFirst_latexBounds (symbol : String) (bounds : List Expr) :
    FailsFirst (latexBounds symbol bounds) (occurrencesAll bounds) := by
  match bounds with
  | [] => exact failsFirst_ok []
  | bound :: bounds =>
    by_cases range : ∃ lower upper, bound = binary .upTo lower upper
    · obtain ⟨lower, upper, rfl⟩ := range
      -- the arrow of a range is not written, but it has a symbol, so it may be gone through as well
      have order : occurrencesAll (binary .upTo lower upper :: bounds) =
          (lower.occurrences ++ upper.occurrences) ++
            ⟨.upTo, .between⟩ :: occurrencesAll bounds := by
        simp [occurrencesAll, occurrences]
      rw [latexBounds, order]
      refine FailsFirst.insert ?_ (by decide)
      rw [List.append_assoc]
      exact (failsFirst_latex lower).bind fun l => (failsFirst_latex upper).bind fun u =>
        (failsFirst_latexBounds symbol bounds).map _
    · rw [latexBounds_cons symbol bounds fun lower upper same => range ⟨lower, upper, same⟩]
      exact (failsFirst_latex bound).bind fun u => (failsFirst_latexBounds symbol bounds).map _

end

/-- A tree is written if all its operators have a symbol for where they stand. Otherwise the error
is that of the first one without a symbol. -/
theorem latex_eq_error_iff_first (e : Expr) :
    ((∃ text, e.latex = .ok text) ↔ ∀ o ∈ e.occurrences, o.Supported) ∧
    ∀ op position, e.latex = .error (.noSymbol op position) ↔
      ∃ before after, e.occurrences = before ++ ⟨op, position⟩ :: after ∧
        (∀ o ∈ before, o.Supported) ∧ ¬Occurrence.Supported ⟨op, position⟩ := by
  have fails := failsFirst_latex e
  exact ⟨fails.exists_ok_iff, fun op position => fails.eq_error_iff ⟨op, position⟩⟩

-- The operator of the body comes behind that of the bound, and the arrow of the range is skipped.
example : (Expr.bounded .sum [.binary .upTo (.name "a") (.postfixed .minus (.name "b"))]
      (.prefixed .hat (.name "x"))).latex = .error (.noSymbol .minus .after) := rfl

end Expr

end MathShorthand
