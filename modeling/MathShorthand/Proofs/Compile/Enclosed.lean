import MathShorthand.Proofs.Compile.Stages
import MathShorthand.Proofs.Grammar.Redundant
import MathShorthand.Proofs.Token.Locality

/-!
# Redundant brackets

A bracket that says nothing new may be added to tokens and to texts, and the trees stay the same
(`keepsTrees_enclosed`). For texts this rests on brackets being boundaries, so that the text between
two of them has the tokens that it has alone.
-/

namespace MathShorthand

open Grammar (Atom Balanced KeepsTrees)

/-- The texts of brackets. -/
def bracketText (k : Kind) : String := if k = .leftParen then "(" else ")"

theorem tokenize_brackets (text : String) :
    tokenize .standard ("(" ++ text ++ ")") = enclosed bracketText (tokenize .standard text) := by
  have opening : OperatorTable.standard.Boundary '(' .leftParen :=
    OperatorTable.boundary_of_mem (by decide)
  have closing : OperatorTable.standard.Boundary ')' .rightParen :=
    OperatorTable.boundary_of_mem (by decide)
  have chars : ("(" ++ text ++ ")").toList = [] ++ '(' :: (text.toList ++ ')' :: []) := by
    rw [String.toList_append, String.toList_append]
    rfl
  rw [tokenize_eq, tokenize_eq, chars,
    tokens_append_boundary opening nofun nofun, tokens_append_boundary closing nofun nofun,
    piecesOf_nil, mergeNames_nil]
  rfl

/-- One more bracket around a name, around another bracket that opens and the one that closes it, or
around all of a single expression leaves the trees as they are, or takes too many levels. The same is
true of a whole text in brackets. -/
theorem keepsTrees_enclosed (texts : Kind → String) :
    (∀ front atom back, Atom atom →
      KeepsTrees (front ++ (atom ++ back)) (front ++ (enclosed texts atom ++ back))) ∧
    (∀ front opening back es, Expr.readAll (front ++ ⟨.leftParen, opening⟩ :: back) = .ok es →
      ∃ inner closing rest, Balanced inner ∧ back = inner ++ ⟨.rightParen, closing⟩ :: rest) ∧
    (∀ tokens e, Expr.readAll tokens = .ok [e] → KeepsTrees tokens (enclosed texts tokens)) ∧
    ∀ text e, parse .standard text = .ok [e] →
      parse .standard ("(" ++ text ++ ")") = .ok [e] ∨
        parse .standard ("(" ++ text ++ ")") = .error .tooDeep := by
  refine ⟨fun front atom back is_atom => Grammar.keepsTrees_atom texts front is_atom back,
    fun front opening back es => Grammar.exists_close_of_readAll,
    fun tokens e => Grammar.keepsTrees_whole texts, fun text e read => ?_⟩
  rw [parse_eq] at read
  have kept := Grammar.keepsTrees_whole bracketText read [e] read
  rw [parse_eq, tokenize_brackets]
  exact kept.1

/-- `(a - b) * c` -/
def productTokens : List Token :=
  [⟨.leftParen, "("⟩, ⟨.name, "a"⟩, ⟨.minus, "-"⟩, ⟨.name, "b"⟩, ⟨.rightParen, ")"⟩, ⟨.times, "*"⟩,
    ⟨.name, "c"⟩]

def Expr.product : Expr :=
  .binary .times (.binary .minus (.name "a") (.name "b")) (.name "c")

/-- A bracket around `b`, around the bracket that is there, and around all of it. -/
theorem keepsTrees_enclosed_product :
    Expr.readAll productTokens = .ok [.product] ∧
    (Atom [⟨.name, "b"⟩] ∧
      Expr.readAll [⟨.leftParen, "("⟩, ⟨.name, "a"⟩, ⟨.minus, "-"⟩, ⟨.leftParen, "("⟩, ⟨.name, "b"⟩,
        ⟨.rightParen, ")"⟩, ⟨.rightParen, ")"⟩, ⟨.times, "*"⟩, ⟨.name, "c"⟩] = .ok [.product]) ∧
    (Atom [⟨.leftParen, "("⟩, ⟨.name, "a"⟩, ⟨.minus, "-"⟩, ⟨.name, "b"⟩, ⟨.rightParen, ")"⟩] ∧
      Expr.readAll [⟨.leftParen, "("⟩, ⟨.leftParen, "("⟩, ⟨.name, "a"⟩, ⟨.minus, "-"⟩, ⟨.name, "b"⟩,
        ⟨.rightParen, ")"⟩, ⟨.rightParen, ")"⟩, ⟨.times, "*"⟩, ⟨.name, "c"⟩] = .ok [.product]) ∧
    (∃ inner closing rest, Balanced inner ∧
      [⟨.name, "a"⟩, ⟨.minus, "-"⟩, ⟨.name, "b"⟩, ⟨.rightParen, ")"⟩, ⟨.times, "*"⟩, ⟨.name, "c"⟩] =
        inner ++ ⟨.rightParen, closing⟩ :: rest) ∧
    Expr.readAll (enclosed bracketText productTokens) = .ok [.product] ∧
    (parse .standard "(a - b) * c" = .ok [.product] ∧
      (parse .standard ("(" ++ "(a - b) * c" ++ ")") = .ok [.product] ∨
        parse .standard ("(" ++ "(a - b) * c" ++ ")") = .error .tooDeep)) := by
  obtain ⟨around_atom, closed, around_whole, around_text⟩ := keepsTrees_enclosed bracketText
  have read : Expr.readAll productTokens = .ok [.product] := Expr.readAll_of_read_to_end rfl
  have inner : Balanced [⟨.name, "a"⟩, ⟨.minus, "-"⟩, ⟨.name, "b"⟩] := by decide
  have atom := Atom.brackets "(" ")" inner
  have text : parse .standard "(a - b) * c" = .ok [.product] := by
    have tokens : tokenize .standard "(a - b) * c" = productTokens := by decide +kernel
    rw [parse_eq, tokens, read]
  refine ⟨read, ⟨.name "b", ?_⟩, ⟨atom, ?_⟩, closed [] "(" _ _ read, ?_, text, around_text _ _ text⟩
  · exact (around_atom [⟨.leftParen, "("⟩, ⟨.name, "a"⟩, ⟨.minus, "-"⟩] _
      [⟨.rightParen, ")"⟩, ⟨.times, "*"⟩, ⟨.name, "c"⟩] (.name "b") _ read).2 (by decide)
  · exact (around_atom [] _ [⟨.times, "*"⟩, ⟨.name, "c"⟩] atom _ read).2 (by decide)
  · exact (around_whole _ _ read _ read).2 (by decide)

end MathShorthand
