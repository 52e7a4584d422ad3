import MathShorthand.Proofs.Compile.Stages
import MathShorthand.Proofs.Token.Folded

/-!
# Texts in lower case

A text in lower case is compiled to the same output in lower case, or to the same error
(`compile_toLower`). Tokens are the same up to case, reading looks at kinds only, and what is written
around names is in lower case already. Case is that of ASCII letters throughout.
-/

namespace MathShorthand

theorem toLower_append (a b : String) : (a ++ b).toLower = a.toLower ++ b.toLower := by
  apply String.toList_injective
  rw [toList_toLower, String.toList_append, String.toList_append, toList_toLower, toList_toLower,
    List.map_append]

/-! ### Writing -/

/-- Everything that is written around names. -/
def latexTexts : List String :=
  ["", " ", "\\", "_", "^", "\x7b", "\x7d", "+", "-", "=", "\\cdot", "\\geq", "\\leq", "\\neq",
    "\\approx", "\\to", "\\hat", "\\vec", "\\frac", "\\int", "\\sum", "\\prod"]

theorem toLower_of_mem_latexTexts : ∀ text ∈ latexTexts, text.toLower = text := by
  decide +kernel

theorem toLower_braced (text : String) : (braced text).toLower = braced text.toLower := by
  simp (disch := decide) only [braced, toLower_append, toLower_of_mem_latexTexts]

theorem toLower_intercalate (texts : List String) :
    (" ".intercalate texts).toLower = " ".intercalate (texts.map String.toLower) := by
  induction texts with
  | nil => exact toLower_of_mem_latexTexts "" (by decide)
  | cons a texts ih =>
    cases texts with
    | nil => simp only [List.map_cons, List.map_nil, String.intercalate_singleton]
    | cons b texts =>
      have space := toLower_of_mem_latexTexts " " (by decide)
      rw [List.map_cons, List.map_cons, String.intercalate_cons_cons, String.intercalate_cons_cons,
        toLower_append, toLower_append, space, ih, List.map_cons]

namespace Kind

theorem toLower_boundedSymbol? {op : Kind} {symbol : String}
    (known : op.boundedSymbol? = some symbol) : symbol.toLower = symbol := by
  apply toLower_of_mem_latexTexts
  cases op <;> cases known <;> decide

theorem latexBefore_toLower (op : Kind) (operand : String) :
    op.latexBefore operand.toLower = (op.latexBefore operand).map String.toLower := by
  cases op <;> simp (disch := decide) only [latexBefore, Except.map, toLower_append, toLower_braced,
    toLower_of_mem_latexTexts]

theorem latexAfter_toLower (op : Kind) (operand : String) :
    op.latexAfter operand.toLower = (op.latexAfter operand).map String.toLower := by
  cases op <;> simp (disch := decide) only [latexAfter, Except.map, toLower_append, toLower_braced,
    toLower_of_mem_latexTexts]

theorem latexBetween_toLower (op : Kind) (left right : String) :
    op.latexBetween left.toLower right.toLower =
      (op.latexBetween left right).map String.toLower := by
  cases op <;> simp (disch := decide) only [latexBetween, infixSymbol?, Except.map, toLower_append,
    toLower_braced, toLower_of_mem_latexTexts]

end Kind

theorem map_bind_eq_map {ε α β γ δ : Type} {x : Except ε α} {g : α → β} {h : γ → δ}
    {next : α → Except ε γ} {next' : β → Except ε δ}
    (after : ∀ a, next' (g a) = (next a).map h) : (x.map g >>= next') = (x >>= next).map h := by
  cases x with
  | error e => rfl
  | ok a => exact after a

namespace Expr

mutual

/-- An expression with its names in lower case is written as before, in lower case. -/
theorem latex_toLower (e : Expr) :
    (e.respell String.toLower).latex = e.latex.map String.toLower := by
  match e with
  | name text => rfl
  | prefixed op operand =>
    rw [respell, latex, latex, latex_toLower operand]
    exact map_bind_eq_map op.latexBefore_toLower
  | postfixed op operand =>
    rw [respell, latex, latex, latex_toLower operand]
    exact map_bind_eq_map op.latexAfter_toLower
  | binary op left right =>
    rw [respell, latex, latex, latex_toLower left, latex_toLower right]
    exact map_bind_eq_map fun l => map_bind_eq_map fun r => op.latexBetween_toLower l r
  | bounded op bounds body =>
    rw [respell, latex, latex, latex_toLower body]
    cases known : op.boundedSymbol? with
    | none => rfl
    | some symbol =>
      have fixed := Kind.toLower_boundedSymbol? known
      dsimp only
      rw [latexBounds_toLower fixed bounds]
      refine map_bind_eq_map fun texts => map_bind_eq_map fun text => ?_
      have space := toLower_of_mem_latexTexts " " (by decide)
      simp only [Except.map, toLower_append, space, List.isEmpty_map]
      split
      · rw [fixed]
      · rw [toLower_intercalate]

theorem latexBounds_toLower {symbol : String} (fixed : symbol.toLower = symbol)
    (bounds : List Expr) :
    latexBounds symbol (respellAll String.toLower bounds) =
      (latexBounds symbol bounds).map (List.map String.toLower) := by
  match bounds with
  | [] => rfl
  | bound :: bounds =>
    by_cases range : ∃ lower upper, bound = binary .upTo lower upper
    · obtain ⟨lower, upper, rfl⟩ := range
      rw [respellAll, respell, latexBounds, latexBounds, latex_toLower lower, latex_toLower upper,
        latexBounds_toLower fixed bounds]
      refine map_bind_eq_map fun l => map_bind_eq_map fun u => map_bind_eq_map fun rest => ?_
      simp (disch := decide) only [Except.map, List.map_cons, toLower_append, toLower_braced, fixed,
        toLower_of_mem_latexTexts]
    · have no_range : ∀ lower upper, bound ≠ binary .upTo lower upper :=
        fun lower upper same => range ⟨lower, upper, same⟩
      have no_range' : ∀ lower upper, bound.respell String.toLower ≠ binary .upTo lower upper := by
        intro lower upper same
        cases bound <;> cases same
        exact no_range _ _ rfl
      rw [respellAll, latexBounds_cons symbol _ no_range, latexBounds_cons symbol _ no_range',
        latex_toLower bound, latexBounds_toLower fixed bounds]
      refine map_bind_eq_map fun u => map_bind_eq_map fun rest => ?_
      simp (disch := decide) only [Except.map, List.map_cons, toLower_append, toLower_braced, fixed,
        toLower_of_mem_latexTexts]

end

end Expr

/-! ### Compiling -/

def CompileError.respell (f : String → String) : CompileError → CompileError
  | parse cause => .parse (cause.respell f)
  | latex cause => .latex cause

/-- The outcome with its text, or the text in its error, in lower case. -/
def lowered (outcome : Except CompileError String) : Except CompileError String :=
  (outcome.map String.toLower).mapError (CompileError.respell String.toLower)

@[simp] theorem lowered_ok (output : String) : lowered (.ok output) = .ok output.toLower := rfl

@[simp] theorem lowered_error (cause : CompileError) :
    lowered (.error cause) = .error (cause.respell String.toLower) := rfl

theorem compileTokens_toLower (tokens : List Token) :
    compileTokens (tokens.map (Token.respell String.toLower)) = lowered (compileTokens tokens) := by
  have empty : "".toLower = "" := toLower_of_mem_latexTexts "" (by decide)
  have again (tokens : List Token) := Expr.read_respell empty 0 tokens
  fun_induction compileTokens tokens with
  | case1 =>
    rw [List.map_nil, compileTokens]
    exact congrArg Except.ok empty.symm
  | case2 token tokens cause rest found =>
    have failed := again (token :: tokens)
    rw [found] at failed
    exact compileTokens_of_read_eq_error failed
  | case3 token tokens e rest found progress cause failed =>
    obtain ⟨text, written⟩ := Expr.exists_latex_of_read found
    cases failed.symm.trans written
  | case4 token tokens e rest found progress first written cause failed ih =>
    have found' := again (token :: tokens)
    rw [found] at found'
    have written' := e.latex_toLower
    rw [written] at written'
    rw [compileTokens_of_read_eq_done found' written', ih, failed]
    rfl
  | case5 token tokens e rest found progress first written others all ih =>
    have found' := again (token :: tokens)
    rw [found] at found'
    have written' := e.latex_toLower
    rw [written] at written'
    rw [compileTokens_of_read_eq_done found' written', ih, all]
    exact congrArg Except.ok (toLower_append first others).symm

/-- A text in lower case has the output of the text in lower case, or its error with the text in
lower case. So texts that differ in case only come to outcomes that differ in case only. -/
theorem compile_toLower :
    (∀ text output, compile .standard text = .ok output →
      compile .standard text.toLower = .ok output.toLower) ∧
    (∀ text cause, compile .standard text = .error cause →
      compile .standard text.toLower = .error (cause.respell String.toLower)) ∧
    (∀ text, (∃ cause, compile .standard text = .error cause) ↔
      ∃ cause, compile .standard text.toLower = .error cause) ∧
    ∀ text text', text.toLower = text'.toLower →
      lowered (compile .standard text) = lowered (compile .standard text') := by
  have same (text : String) : compile .standard text.toLower = lowered (compile .standard text) := by
    rw [compile_eq, compile_eq, tokenize_standard_toLower, compileTokens_toLower]
  refine ⟨fun text output compiled => ?_, fun text cause failed => ?_, fun text => ?_,
    fun text text' alike => ?_⟩
  · rw [same, compiled, lowered_ok]
  · rw [same, failed, lowered_error]
  · rw [same]
    cases compile .standard text with
    | ok output => simp only [lowered_ok, reduceCtorEq]
    | error cause => simp only [lowered_error, Except.error.injEq, exists_eq']
  · rw [← same, ← same, alike]

/-- The long s and the sign for kelvin are no ASCII letters. They make no keyword and stay as they
are. -/
theorem compile_toLower_integral :
    compile .standard "INT 0 TO X OF \u017fum \u212a" =
      .ok "\\int_\x7b0\x7d^\x7bX\x7d \u017fum \u212a" ∧
    compile .standard "INT 0 TO X OF \u017fum \u212a".toLower =
      .ok "\\int_\x7b0\x7d^\x7bX\x7d \u017fum \u212a".toLower ∧
    compile .standard "SUM N OF TO" = .error (.parse (.unexpected ⟨.upTo, "TO"⟩)) ∧
    compile .standard "SUM N OF TO".toLower = .error (.parse (.unexpected ⟨.upTo, "TO".toLower⟩)) ∧
    ("sUm N of x".toLower = "Sum n OF X".toLower ∧
      lowered (compile .standard "sUm N of x") = lowered (compile .standard "Sum n OF X")) := by
  obtain ⟨outputs, errors, -, alike⟩ := compile_toLower
  have integral : compile .standard "INT 0 TO X OF \u017fum \u212a" =
      .ok "\\int_\x7b0\x7d^\x7bX\x7d \u017fum \u212a" := by decide +kernel
  have arrow : compile .standard "SUM N OF TO" = .error (.parse (.unexpected ⟨.upTo, "TO"⟩)) := by
    decide +kernel
  have same : "sUm N of x".toLower = "Sum n OF X".toLower := by
    apply String.toList_injective
    rw [toList_toLower, toList_toLower]
    decide
  exact ⟨integral, outputs _ _ integral, arrow, errors _ _ arrow, same, alike _ _ same⟩

end MathShorthand
