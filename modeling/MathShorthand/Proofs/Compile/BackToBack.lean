import MathShorthand.Proofs.Compile.Stages
import MathShorthand.Proofs.Grammar.Follow
import MathShorthand.Proofs.Token.Locality

/-!
# Texts back to back

A text that begins with an opening bracket or a backslash may be put behind another, and is compiled
as if it stood alone (`compile_append_standard`). Neither goes on with a name or an expression in
front of it, so the tokens in front stay the same, and so does everything that is read from them.
-/

namespace MathShorthand

namespace Grammar

theorem NoTighter.append_right {more : List Token} (stops : Stops 0 more) (rest : List Token) :
    NoTighter (rest ++ more) rest := by
  cases rest with
  | nil => exact .of_stops stops []
  | cons t rest => exact Nat.le_refl _

theorem read_append {tokens rest more : List Token} {e : Expr}
    (found : Expr.read 0 tokens = .done e rest) (stops : Stops 0 more) :
    Expr.read 0 (tokens ++ more) = .done e (rest ++ more) := by
  obtain ⟨front, rfl, reads⟩ := readsAgain_readWithin maxDepth 0 _ _ _ found
  rw [List.append_assoc]
  exact reads _ (.append_right stops rest)

end Grammar

/-- Tokens that come to an end are compiled first, and then what is put behind them. -/
theorem compileTokens_append {tokens more : List Token} {text : String}
    (compiled : compileTokens tokens = .ok text) (stops : Grammar.Stops 0 more) :
    compileTokens (tokens ++ more) = (compileTokens more).map (text ++ ·) := by
  fun_induction compileTokens tokens generalizing text with
  | case1 =>
    cases compiled
    rw [List.nil_append]
    cases compileTokens more with
    | error cause => rfl
    | ok others => exact congrArg Except.ok String.empty_append.symm
  | case2 token tokens cause rest found => cases compiled
  | case3 token tokens e rest found progress cause failed => cases compiled
  | case4 token tokens e rest found progress first written cause failed ih => cases compiled
  | case5 token tokens e rest found progress first written others all ih =>
    cases compiled
    have again := Grammar.read_append found stops
    rw [compileTokens_of_read_eq_done again written, ih all]
    cases compileTokens more with
    | error cause => rfl
    | ok last => exact congrArg Except.ok String.append_assoc.symm

/-- A text that begins with an operator which parts all texts and goes on with no expression is
compiled behind another as it is alone. -/
theorem compile_append {R : Type} [Regex R] {table : OperatorTable R} [table.TakesPrefixes] {c : Char} {k : Kind}
    (boundary : table.Boundary c k) (not_name : k ≠ .name) (not_blank : k ≠ .blank)
    (no_rule : k.infixRule? = none) {text more output : String}
    (starts : more.toList.head? = some c) (compiled : compile table text = .ok output) :
    compile table (text ++ more) = (compile table more).map (output ++ ·) := by
  obtain ⟨tokens, first⟩ := tokenize_append boundary not_name not_blank text starts
  have stops : Grammar.Stops 0 (tokenize table more) := by
    rw [Grammar.Stops, first, Nat.le_zero, Kind.precedence_eq_zero_iff]
    exact no_rule
  rw [compile_eq] at compiled
  rw [compile_eq, compile_eq, tokens]
  exact compileTokens_append compiled stops

/-- Behind a text that compiles, a text that begins with an opening bracket or a backslash gives the
output, or the error, that it gives alone. -/
theorem compile_append_standard (text more : String)
    (starts : more.toList.head? = some '(' ∨ more.toList.head? = some '\\') (output : String)
    (compiled : compile .standard text = .ok output) :
    (∀ others, compile .standard more = .ok others →
      compile .standard (text ++ more) = .ok (output ++ others)) ∧
    ∀ cause, compile .standard more = .error cause →
      compile .standard (text ++ more) = .error cause := by
  have whole : compile .standard (text ++ more) = (compile .standard more).map (output ++ ·) := by
    rcases starts with bracket | escape
    · have boundary : OperatorTable.standard.Boundary '(' .leftParen :=
        OperatorTable.boundary_of_mem (by decide)
      exact compile_append boundary nofun nofun rfl bracket compiled
    · have boundary : OperatorTable.standard.Boundary '\\' .escape :=
        OperatorTable.boundary_of_mem (by decide)
      exact compile_append boundary nofun nofun rfl escape compiled
  rw [whole]
  constructor
  · intro others alone
    rw [alone]
    rfl
  · intro cause alone
    rw [alone]
    rfl

/-- The body of the sum would go on with any operator, and the name with any other name. -/
theorem compile_append_standard_sum :
    ("(a)b".toList.head? = some '(' ∧ "\\pi)".toList.head? = some '\\') ∧
    compile .standard "sum n of x + y " = .ok "\\sum^\x7bn\x7d x + y" ∧
    compile .standard ("sum n of x + y " ++ "(a)b") = .ok ("\\sum^\x7bn\x7d x + y" ++ "ab") ∧
    compile .standard ("sum n of x + y " ++ "\\pi)") =
      .error (.parse (.unexpected ⟨.rightParen, ")"⟩)) := by
  have sum : compile .standard "sum n of x + y " = .ok "\\sum^\x7bn\x7d x + y" := by decide +kernel
  have bracket : compile .standard "(a)b" = .ok "ab" := by decide +kernel
  have closing : compile .standard "\\pi)" = .error (.parse (.unexpected ⟨.rightParen, ")"⟩)) := by
    decide +kernel
  refine ⟨⟨rfl, rfl⟩, sum, ?_, ?_⟩
  · exact (compile_append_standard _ "(a)b" (.inl rfl) _ sum).1 _ bracket
  · exact (compile_append_standard _ "\\pi)" (.inr rfl) _ sum).2 _ closing

end MathShorthand
