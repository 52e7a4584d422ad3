import MathShorthand.Parser.Error

/-!
# Outcomes

Whatever reads tokens takes them from the front and puts none back, also when it fails. So an
outcome is a result together with the tokens that are left.
-/

namespace MathShorthand

/-- What reading came to, and the tokens it left. -/
structure Outcome (α : Type) where
  result : Except ParseError α
  rest : List Token

namespace Outcome

/-- Read on with what was read so far. An error ends the reading where it arose. -/
def andThen {α β : Type} (o : Outcome α) (next : α → List Token → Outcome β) : Outcome β :=
  match o with
  | ⟨.ok a, rest⟩ => next a rest
  | ⟨.error e, rest⟩ => ⟨.error e, rest⟩

@[simp] theorem ok_andThen {α β : Type} (a : α) (rest : List Token)
    (next : α → List Token → Outcome β) : andThen ⟨.ok a, rest⟩ next = next a rest := rfl

@[simp] theorem error_andThen {α β : Type} (e : ParseError) (rest : List Token)
    (next : α → List Token → Outcome β) : andThen ⟨.error e, rest⟩ next = ⟨.error e, rest⟩ := rfl

/-- A success with nothing more read. -/
def done {α : Type} (a : α) (rest : List Token) : Outcome α := ⟨.ok a, rest⟩

theorem rest_andThen_suffix {α β : Type} {o : Outcome α} {next : α → List Token → Outcome β}
    {tokens : List Token} (first : o.rest <:+ tokens)
    (then_ : ∀ a rest, rest <:+ tokens → (next a rest).rest <:+ tokens) :
    (o.andThen next).rest <:+ tokens := by
  obtain ⟨_ | a, rest⟩ := o
  · exact first
  · exact then_ a rest first

end Outcome

def nextToken (tokens : List Token) : Token := tokens.headD .eof

/-- Take the next token if it is of kind `wanted`, and nothing otherwise. -/
def expectToken (wanted : Kind) (tokens : List Token) : Outcome Token :=
  if (nextToken tokens).kind = wanted then ⟨.ok (nextToken tokens), tokens.tail⟩
  else ⟨.error (.expected wanted (nextToken tokens)), tokens⟩

theorem rest_expectToken_suffix (wanted : Kind) (tokens : List Token) :
    (expectToken wanted tokens).rest <:+ tokens := by
  unfold expectToken
  split
  · exact List.tail_suffix tokens
  · exact List.suffix_refl tokens

end MathShorthand
