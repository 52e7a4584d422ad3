import MathShorthand.Proofs.Compile.Stages
import MathShorthand.Proofs.Parser.Levels

/-!
# Parsing comes to an end

The machine comes to rest from every parser, with fewer tokens if it read an expression. A loop
that takes one expression after another from a parser therefore ends too, and so do the two that
there are, the one that collects the expressions and the one that writes each as LaTeX. The steps
of a loop are the steps of the machine inside of it (`Loop.eval_of_computes`).
-/

namespace MathShorthand

open StateTransition

/-- A loop that takes expressions from a parser up to its end and adds each to what it has made. -/
structure Loop (α ε : Type) where
  refused : ParseError → ε
  add : α → Expr → Except ε α

/-- Where a loop stands. -/
inductive Loop.Stage (α ε : Type) where
  | between (p : Parser) (made : α)
  | inside (m : Machine) (made : α)
  | ended (result : Except ε α)

namespace Loop

variable {α ε : Type} (loop : Loop α ε)

def step : Stage α ε → Option (Stage α ε)
  | .between p made =>
    some (if p.isExhausted then .ended (.ok made) else .inside ⟨.read 0, [], p⟩ made)
  | .inside ⟨.give (.ok e), [], p⟩ made =>
    match loop.add made e with
    | .ok made => some (.between p made)
    | .error cause => some (.ended (.error cause))
  | .inside ⟨.give (.error cause), [], _⟩ _ => some (.ended (.error (loop.refused cause)))
  | .inside m made => m.step.map (.inside · made)
  | .ended _ => none

/-- The loop that collects the expressions. -/
def collecting : Loop (List Expr) ParseError where
  refused := id
  add es e := .ok (es ++ [e])

/-- The loop that writes every expression before it takes the next one. -/
def compiling : Loop String CompileError where
  refused := .parse
  add written e := (e.latex.map (written ++ ·)).mapError .latex

/-- With `made` already made, `f` gives what the loop should make of the tokens. -/
structure Computes (f : α → List Token → Except ε α) : Prop where
  ends : ∀ made, f made [] = .ok made
  refuses : ∀ made tokens cause rest, tokens ≠ [] → Expr.read 0 tokens = ⟨.error cause, rest⟩ →
    f made tokens = .error (loop.refused cause)
  adds : ∀ made tokens e rest, Expr.read 0 tokens = .done e rest →
    f made tokens = (loop.add made e).bind (f · rest)

variable {loop} {f : α → List Token → Except ε α} {made : α} {tokens : List Token}

theorem step_inside {m m' : Machine} (steps : m.step = some m') (made : α) :
    loop.step (.inside m made) = some (.inside m' made) := by
  rw [step, steps, Option.map_some]
  -- a machine that has a step left has not come to a result
  · rintro e p rfl
    cases steps
  · rintro cause p rfl
    cases steps

theorem reaches_inside {m m' : Machine} (run : Reaches Machine.step m m') (made : α) :
    Reaches loop.step (.inside m made) (.inside m' made) := by
  induction run with
  | refl => exact .refl
  | tail _ steps ih => exact ih.tail (step_inside steps made)

/-- Up to the next expression a loop does what its parser does. -/
theorem reaches_read (some_tokens : tokens ≠ []) :
    Reaches loop.step (.between (.ofTokens tokens) made)
      (.inside (Machine.given [] 0 (Expr.read 0 tokens)) made) := by
  obtain ⟨run, -⟩ := mem_eval.mp (Part.eq_some_iff.mp (Machine.eval_read (.ofTokens tokens) 0))
  refine .head ?_ (reaches_inside run made)
  obtain ⟨token, tokens, rfl⟩ := List.exists_cons_of_ne_nil some_tokens
  rfl

theorem reaches_ended (computes : loop.Computes f) (made : α) (tokens : List Token) :
    Reaches loop.step (.between (.ofTokens tokens) made) (.ended (f made tokens)) := by
  induction len : tokens.length using Nat.strongRecOn generalizing made tokens with
  | ind n ih =>
    by_cases none_left : tokens = []
    · subst none_left
      rw [computes.ends]
      exact .single rfl
    · refine (reaches_read none_left).trans ?_
      cases read : Expr.read 0 tokens with
      | mk result rest =>
        cases result with
        | error cause =>
          rw [computes.refuses made tokens cause rest none_left read]
          exact .single rfl
        | ok e =>
          rw [computes.adds made tokens e rest read]
          have shorter : rest.length < n := len ▸ Expr.length_lt_of_readWithin read
          cases added : loop.add made e with
          | error cause => exact .single (by simp only [Machine.given, step, added]; rfl)
          | ok more =>
            refine .head ?_ (ih rest.length shorter more rest rfl)
            simp only [Machine.given, step, added]
            rfl

theorem eval_of_computes (computes : loop.Computes f) (made : α) (tokens : List Token) :
    eval loop.step (.between (.ofTokens tokens) made) = Part.some (.ended (f made tokens)) :=
  Part.eq_some_iff.mpr (mem_eval.mpr ⟨reaches_ended computes made tokens, rfl⟩)

theorem computes_collecting :
    collecting.Computes fun made tokens => (Expr.readAll tokens).map (made ++ ·) where
  ends made := by rw [Expr.readAll, Except.map, List.append_nil]
  refuses made tokens cause rest some_tokens failed := by
    rw [Expr.readAll_of_read_eq_error some_tokens (congrArg Outcome.result failed)]
    rfl
  adds made tokens e rest read := by
    rw [Expr.readAll_of_read_eq_done read]
    cases Expr.readAll rest with
    | error cause => rfl
    | ok es => exact congrArg Except.ok (List.append_cons made e es)

theorem computes_compiling :
    compiling.Computes fun made tokens => (compileTokens tokens).map (made ++ ·) where
  ends made := by rw [compileTokens, Except.map, String.append_empty]
  refuses made tokens cause rest some_tokens failed := by
    obtain ⟨token, tokens, rfl⟩ := List.exists_cons_of_ne_nil some_tokens
    rw [compileTokens_of_read_eq_error failed]
    rfl
  adds made tokens e rest read := by
    cases written : e.latex with
    | error cause =>
      rw [compileTokens_of_latex_eq_error read written]
      simp only [compiling, written]
      rfl
    | ok first =>
      rw [compileTokens_of_read_eq_done read written]
      simp only [compiling, written]
      cases compileTokens rest with
      | error cause => rfl
      | ok others => exact congrArg Except.ok String.append_assoc.symm

end Loop

/-! ### Parsing -/

namespace Parser

/-- Reading an expression ends, on some last part of the tokens, without more calls than there are
levels left and one more. -/
structure Finishes (p : Parser) (rank : Nat) : Prop where
  ends : eval Machine.step ⟨.read rank, [], p⟩ = Part.some (Machine.returned (p.parse rank))
  bounded : ∀ m, Reaches Machine.step ⟨.read rank, [], p⟩ m →
    m.active ≤ maxDepth + 1 - p.depth ∧ m.parser.depth ≤ maxDepth + 1
  takes : ∀ e, (p.parse rank).1 = .ok e →
    (p.parse rank).2.tokens <:+ p.tokens ∧ (p.parse rank).2.tokens.length < p.tokens.length
  leaves : ∀ cause, (p.parse rank).1 = .error cause →
    (p.parse rank).2.tokens <:+ p.tokens ∧
      ((p.parse rank).2.tokens = p.tokens →
        p.tokens = [] ∨ p.depth = maxDepth ∧ cause = .tooDeep)

theorem parse_tokens_suffix (p : Parser) (rank : Nat) : (p.parse rank).2.tokens <:+ p.tokens :=
  Expr.rest_readWithin_suffix p.room rank p.tokens

theorem length_lt_of_parse {p : Parser} {rank : Nat} {e : Expr} (read : (p.parse rank).1 = .ok e) :
    (p.parse rank).2.tokens.length < p.tokens.length := by
  have found : Expr.readWithin p.room rank p.tokens = ⟨.ok e, (p.parse rank).2.tokens⟩ :=
    congrArg (Outcome.mk · _) read
  exact Expr.length_lt_of_readWithin found

theorem eq_nil_or_tooDeep_of_parse {p : Parser} {rank : Nat} {cause : ParseError}
    (within : p.depth ≤ maxDepth) (failed : (p.parse rank).1 = .error cause)
    (same : (p.parse rank).2.tokens = p.tokens) :
    p.tokens = [] ∨ p.depth = maxDepth ∧ cause = .tooDeep := by
  rcases within.eq_or_lt with full | free
  · rw [parse, room, full, Nat.sub_self] at failed
    exact .inr ⟨full, (Except.error.inj failed).symm⟩
  · -- with a level left the first token is taken in any case
    obtain ⟨room, some_room⟩ : ∃ room, p.room = room + 1 :=
      Nat.exists_eq_succ_of_ne_zero (Nat.sub_ne_zero_of_lt free)
    have suffix := Expr.rest_readWithin_suffix_tail room rank p.tokens
    rw [← some_room] at suffix
    have length_le : (p.parse rank).2.tokens.length ≤ p.tokens.tail.length := suffix.length_le
    rw [same, List.length_tail] at length_le
    refine .inl (List.length_eq_zero_iff.mp ?_)
    omega

theorem finishes (p : Parser) (rank : Nat) (within : p.depth ≤ maxDepth) : p.Finishes rank where
  ends := Machine.eval_read p rank
  bounded _ run :=
    have bounded := (Machine.bounded_read rank within).reaches run
    ⟨bounded.active_le, bounded.depth_le⟩
  takes _ read := ⟨p.parse_tokens_suffix rank, length_lt_of_parse read⟩
  leaves _ failed := ⟨p.parse_tokens_suffix rank, eq_nil_or_tooDeep_of_parse within failed⟩

/-- Parsing ends from every parser that has not too many levels open, and so do the bounds of an
operator, whatever parts and ends them, and the two loops over all tokens. -/
theorem parse_ends (p : Parser) (rank : Nat) (within : p.depth ≤ maxDepth) :
    p.Finishes rank ∧
      (∀ separator terminator token,
        eval Machine.step ⟨.start (.bounded separator terminator) token, [], p⟩ =
          Part.some (Machine.returned (p.parsePrefix (.bounded separator terminator) token))) ∧
      (∀ tokens, eval Loop.collecting.step (.between (.ofTokens tokens) []) =
        Part.some (.ended (Expr.readAll tokens))) ∧
      ∀ tokens, eval Loop.compiling.step (.between (.ofTokens tokens) "") =
        Part.some (.ended (compileTokens tokens)) := by
  refine ⟨p.finishes rank within, fun separator terminator token => ?_, fun tokens => ?_,
    fun tokens => ?_⟩
  · exact Machine.eval_start p (.bounded separator terminator) token
  · rw [Loop.eval_of_computes Loop.computes_collecting [] tokens]
    simp only [List.nil_append]
    rw [show Except.map (fun es : List Expr => es) = id from Except.map_id, id]
  · rw [Loop.eval_of_computes Loop.computes_compiling "" tokens]
    simp only [String.empty_append]
    rw [show Except.map (fun written : String => written) = id from Except.map_id, id]

/-- With three levels left a sum is read. Where the end both parts and ends the bounds, it ends them
and is missing as a body. Both loops come to the bracket that nothing opened. -/
theorem parse_ends_three_levels :
    253 ≤ maxDepth ∧
      eval Machine.step ⟨.read 0, [], ⟨[⟨.name, "x"⟩, ⟨.plus, "+"⟩, ⟨.name, "y"⟩], 253⟩⟩ =
        Part.some
          (Machine.returned (.ok (.binary .plus (.name "x") (.name "y")), ⟨[], 253⟩)) ∧
      eval Machine.step ⟨.start (.bounded .eof .eof) ⟨.sum, "sum"⟩, [],
          ⟨[⟨.name, "x"⟩, ⟨.plus, "+"⟩, ⟨.name, "y"⟩], 253⟩⟩ =
        Part.some (Machine.returned (.error (.unexpected .eof), ⟨[], 253⟩)) ∧
      eval Loop.collecting.step
          (.between (.ofTokens [⟨.name, "x"⟩, ⟨.name, "y"⟩, ⟨.rightParen, ")"⟩]) []) =
        Part.some (.ended (.error (.unexpected ⟨.rightParen, ")"⟩))) ∧
      eval Loop.compiling.step
          (.between (.ofTokens [⟨.name, "x"⟩, ⟨.name, "y"⟩, ⟨.rightParen, ")"⟩]) "") =
        Part.some (.ended (.error (.parse (.unexpected ⟨.rightParen, ")"⟩)))) := by
  have stuck : Expr.readAll [⟨.name, "x"⟩, ⟨.name, "y"⟩, ⟨.rightParen, ")"⟩] =
      .error (.unexpected ⟨.rightParen, ")"⟩) := by
    have first : Expr.read 0 [⟨.name, "x"⟩, ⟨.name, "y"⟩, ⟨.rightParen, ")"⟩] =
        .done (.name "x") [⟨.name, "y"⟩, ⟨.rightParen, ")"⟩] := rfl
    have second : Expr.read 0 [⟨.name, "y"⟩, ⟨.rightParen, ")"⟩] =
        .done (.name "y") [⟨.rightParen, ")"⟩] := rfl
    rw [Expr.readAll_of_read_eq_done first, Expr.readAll_of_read_eq_done second, Expr.readAll]
    rfl
  obtain ⟨reads, bounds, collects, compiles⟩ :=
    parse_ends ⟨[⟨.name, "x"⟩, ⟨.plus, "+"⟩, ⟨.name, "y"⟩], 253⟩ 0 (by decide)
  refine ⟨by decide, reads.ends, bounds .eof .eof ⟨.sum, "sum"⟩, ?_, ?_⟩
  · rw [collects, stuck]
  · rw [compiles, compileTokens_of_readAll_eq_error stuck]

end Parser

end MathShorthand
