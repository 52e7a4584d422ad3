import MathShorthand.Compile
import MathShorthand.Proofs.Token.Merge
import MathShorthand.Proofs.Tree.Writable

/-!
# Reading first, writing afterwards

`compileTokens` writes every expression before it reads the next, so an expression that cannot be
written would keep a later error of the parser from being seen. There is none: all that is read can
be written (`Expr.exists_latex_of_read`). So the outcome is the one of reading everything and then
writing everything.
-/

namespace MathShorthand

theorem compileTokens_of_done {tokens rest : List Token} {e : Expr}
    (found : Expr.read 0 tokens = .done e rest) :
    compileTokens tokens =
      match e.latex with
      | .error cause => .error (.latex cause)
      | .ok first => (compileTokens rest).map (first ++ ·) := by
  cases tokens with
  | nil => exact absurd (congrArg Outcome.result found) (Expr.result_readWithin_nil maxDepth 0 e)
  | cons token tokens =>
    rw [compileTokens]
    split
    · next failed => cases found.symm.trans failed
    · next e' rest' read =>
      obtain ⟨same, rests⟩ := Outcome.done_inj (found.symm.trans read)
      subst same rests
      cases e.latex with
      | error cause => rfl
      | ok first => cases compileTokens rest <;> rfl

theorem compileTokens_of_read_eq_done {tokens rest : List Token} {e : Expr} {first : String}
    (found : Expr.read 0 tokens = .done e rest) (written : e.latex = .ok first) :
    compileTokens tokens = (compileTokens rest).map (first ++ ·) := by
  rw [compileTokens_of_done found, written]

theorem compileTokens_of_latex_eq_error {tokens rest : List Token} {e : Expr} {cause : LatexError}
    (found : Expr.read 0 tokens = .done e rest) (refused : e.latex = .error cause) :
    compileTokens tokens = .error (.latex cause) := by
  rw [compileTokens_of_done found, refused]

theorem compileTokens_of_read_eq_error {token : Token} {tokens rest : List Token}
    {cause : ParseError} (failed : Expr.read 0 (token :: tokens) = ⟨.error cause, rest⟩) :
    compileTokens (token :: tokens) = .error (.parse cause) := by
  rw [compileTokens]
  split
  · next failed' =>
    cases failed.symm.trans failed'
    rfl
  · next read => cases failed.symm.trans read

theorem compileTokens_of_readAll_eq_ok {tokens : List Token} {es : List Expr}
    (read : Expr.readAll tokens = .ok es) :
    ∃ written, es.mapM Expr.latex = .ok written ∧
      compileTokens tokens = .ok (String.join written) := by
  fun_induction Expr.readAll tokens generalizing es with
  | case1 =>
    cases read
    refine ⟨[], rfl, ?_⟩
    rw [compileTokens]
    rfl
  | case2 token tokens cause rest found => cases read
  | case3 token tokens e rest found progress cause failed ih => cases read
  | case4 token tokens e rest found progress others all ih =>
    cases read
    obtain ⟨first, first_written⟩ := Expr.exists_latex_of_read found
    obtain ⟨written, others_written, compiled⟩ := ih all
    refine ⟨first :: written, ?_, ?_⟩
    · rw [List.mapM_cons, first_written, others_written]
      rfl
    · rw [compileTokens_of_read_eq_done found first_written, compiled]
      exact congrArg Except.ok String.join_cons.symm

theorem compileTokens_of_readAll_eq_error {tokens : List Token} {cause : ParseError}
    (failed : Expr.readAll tokens = .error cause) :
    compileTokens tokens = .error (.parse cause) := by
  fun_induction Expr.readAll tokens with
  | case1 => cases failed
  | case2 token tokens cause rest found =>
    cases failed
    exact compileTokens_of_read_eq_error found
  | case3 token tokens e rest found progress cause later ih =>
    cases failed
    -- what was read before the error is written without one, so the error is still met
    obtain ⟨first, first_written⟩ := Expr.exists_latex_of_read found
    rw [compileTokens_of_read_eq_done found first_written, ih later]
    rfl
  | case4 token tokens e rest found progress others all ih => cases failed

theorem compileTokens_ne_latex_error (tokens : List Token) (cause : LatexError) :
    compileTokens tokens ≠ .error (.latex cause) := by
  intro failed
  cases read : Expr.readAll tokens with
  | error cause' =>
    rw [compileTokens_of_readAll_eq_error read] at failed
    cases failed
  | ok es =>
    obtain ⟨written, -, compiled⟩ := compileTokens_of_readAll_eq_ok read
    rw [compiled] at failed
    cases failed

/-! ### Texts -/

section

variable {R : Type} [Regex R] (table : OperatorTable R) [table.TakesPrefixes] (text : String)

theorem isSome_parse? : (parse? table text).isSome = true := by
  rw [parse?, tokenize?_eq]
  rfl

theorem isSome_compile? : (compile? table text).isSome = true := by
  rw [compile?, tokenize?_eq]
  rfl

/-- The expressions of a text, which a table that takes prefixes reads without a panic. -/
def parse : Except ParseError (List Expr) := (parse? table text).get (isSome_parse? table text)

/-- The LaTeX of a text, which a table that takes prefixes reads without a panic. -/
def compile : Except CompileError String := (compile? table text).get (isSome_compile? table text)

theorem parse_eq : parse table text = Expr.readAll (tokenize table text) := by
  refine Option.some.inj ((Option.some_get _).trans ?_)
  rw [parse?, tokenize?_eq]
  rfl

theorem compile_eq : compile table text = compileTokens (tokenize table text) := by
  refine Option.some.inj ((Option.some_get _).trans ?_)
  rw [compile?, tokenize?_eq]
  rfl

end

/-- Whatever is read can be written, and tokens are compiled by reading all of them and then writing
all that was read. What fails is the reading, and it fails alike. So it is with a text, whatever
operators take its pieces, as long as these are prefixes. -/
theorem compile_of_parse :
    (∀ tokens es, Expr.readAll tokens = .ok es → ∀ e ∈ es, ∃ text, e.latex = .ok text) ∧
    (∀ tokens, (∀ cause, compileTokens tokens ≠ .error (.latex cause)) ∧
      (∀ es, Expr.readAll tokens = .ok es →
        ∃ written, es.mapM Expr.latex = .ok written ∧
          compileTokens tokens = .ok (String.join written)) ∧
      ∀ cause, Expr.readAll tokens = .error cause →
        compileTokens tokens = .error (.parse cause)) ∧
    ∀ (R : Type) [Regex R] (table : OperatorTable R), table.TakesPrefixes → ∀ text,
      (∃ outcome, parse? table text = some outcome) ∧
      (∀ cause, compile? table text ≠ some (.error (.latex cause))) ∧
      (∀ es, parse? table text = some (.ok es) →
        ∃ written, es.mapM Expr.latex = .ok written ∧
          compile? table text = some (.ok (String.join written))) ∧
      ∀ cause, parse? table text = some (.error cause) →
        compile? table text = some (.error (.parse cause)) := by
  refine ⟨?_, fun tokens => ⟨compileTokens_ne_latex_error tokens, ?_, ?_⟩, ?_⟩
  · intro tokens es read e mem
    exact Expr.exists_latex_of_readAll read e mem
  · intro es read
    exact compileTokens_of_readAll_eq_ok read
  · intro cause failed
    exact compileTokens_of_readAll_eq_error failed
  · intro R _ table prefixes text
    simp only [parse?, compile?, tokenize?_eq, Option.map_some, Option.some.injEq]
    refine ⟨⟨_, rfl⟩, fun cause => ?_, fun es read => ?_, fun cause failed => ?_⟩
    · exact fun failed => compileTokens_ne_latex_error _ cause (Option.some.inj failed)
    · exact compileTokens_of_readAll_eq_ok read
    · exact compileTokens_of_readAll_eq_error failed

/-- An integral over a range and a bound, and a name before a bracket that nothing opened. -/
theorem compile_of_integral :
    OperatorTable.standard.TakesPrefixes ∧
    (∃ es, parse? .standard "int 0 to \\pi, infinity of x" = some (.ok es) ∧
      ∀ e ∈ es, ∃ text, e.latex = .ok text) ∧
    compile? .standard "int 0 to \\pi, infinity of x" =
      some (.ok "\\int_\x7b0\x7d^\x7b\\pi\x7d \\int^\x7binfinity\x7d x") ∧
    compile? .standard "a@ b)" = some (.error (.parse (.unexpected ⟨.rightParen, ")"⟩))) ∧
    compileTokens [⟨.name, "a"⟩, ⟨.hat, "@"⟩, ⟨.name, "b"⟩, ⟨.rightParen, ")"⟩] =
      .error (.parse (.unexpected ⟨.rightParen, ")"⟩)) := by
  let es : List Expr :=
    [.bounded .integral [.binary .upTo (.name "0") (.prefixed .escape (.name "pi")),
      .name "infinity"] (.name "x")]
  let integral_tokens : List Token :=
    [⟨.integral, "int"⟩, ⟨.name, "0"⟩, ⟨.upTo, "to"⟩, ⟨.escape, "\\"⟩, ⟨.name, "pi"⟩, ⟨.comma, ","⟩,
      ⟨.name, "infinity"⟩, ⟨.ofBody, "of"⟩, ⟨.name, "x"⟩]
  let hat_tokens : List Token :=
    [⟨.name, "a"⟩, ⟨.hat, "@"⟩, ⟨.name, "b"⟩, ⟨.rightParen, ")"⟩]
  have integral_text : tokenize? .standard "int 0 to \\pi, infinity of x" = some integral_tokens := by
    decide +kernel
  have hat_text : tokenize? .standard "a@ b)" = some hat_tokens := by decide +kernel
  have integral : Expr.readAll integral_tokens = .ok es := Expr.readAll_of_read_to_end rfl
  have hat : Expr.readAll hat_tokens = .error (.unexpected ⟨.rightParen, ")"⟩) := by
    have first : Expr.read 0 hat_tokens =
        .done (.postfixed .hat (.name "a")) [⟨.name, "b"⟩, ⟨.rightParen, ")"⟩] := rfl
    have second : Expr.read 0 [⟨.name, "b"⟩, ⟨.rightParen, ")"⟩] =
        .done (.name "b") [⟨.rightParen, ")"⟩] := rfl
    rw [Expr.readAll_of_read_eq_done first, Expr.readAll_of_read_eq_done second, Expr.readAll]
    rfl
  have integral_parse : parse? .standard "int 0 to \\pi, infinity of x" = some (.ok es) := by
    rw [parse?, integral_text, Option.map_some, integral]
  have hat_parse : parse? .standard "a@ b)" = some (.error (.unexpected ⟨.rightParen, ")"⟩)) := by
    rw [parse?, hat_text, Option.map_some, hat]
  obtain ⟨writable, stages, texts⟩ := compile_of_parse
  have prefixes : OperatorTable.standard.TakesPrefixes := inferInstance
  obtain ⟨-, -, written, -⟩ := texts Pattern .standard prefixes "int 0 to \\pi, infinity of x"
  obtain ⟨-, -, -, failed⟩ := texts Pattern .standard prefixes "a@ b)"
  obtain ⟨written, latex, compiled⟩ := written _ integral_parse
  obtain rfl := Except.ok.inj latex
  refine ⟨prefixes, ⟨_, integral_parse, writable _ _ integral⟩, ?_, failed _ hat_parse,
    (stages _).2.2 _ hat⟩
  exact compiled.trans (congrArg (some ∘ Except.ok) (by decide +kernel))

end MathShorthand
