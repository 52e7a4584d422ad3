import MathShorthand.Pattern.Joined
import MathShorthand.Pattern.Sign

/-!
# Reading patterns

`Pattern.read?` gives the pattern that a text is the written form of. It keeps the brackets that
are open, the innermost first, and what has been read in each of them. A written form that nests too
deep is refused, and so is one with a mark or a sign that is not known here, well formed as it may
be.
-/

namespace MathShorthand.Pattern

/-- The number of levels that the written form of a pattern may nest. -/
def maxNesting : Nat := 250

/-- A pattern and the levels that its written form nests. -/
structure Part where
  pattern : Pattern
  depth : Nat

namespace Part

def deepest (parts : List Part) : Nat := parts.foldr (max ·.depth ·) 0

/-- The part that `join` makes of several. It takes a level of its own unless there is only one of
them or none. -/
def joined (join : List Pattern → Pattern) (parts : List Part) : Part :=
  ⟨join (parts.map pattern), deepest parts + if parts.length ≤ 1 then 0 else 1⟩

def repeated (p : Part) (count : Count) (greedy : Bool) : Part :=
  match count with
  | .anyNumber => ⟨anyNumber greedy p.pattern, p.depth + 1⟩
  | .atLeastOnce => ⟨atLeastOnce greedy p.pattern, p.depth + 1⟩
  | .atMostOnce => ⟨opt greedy p.pattern, p.depth + 1⟩

def bracketed (p : Part) (bracket : Bracket) : Part :=
  match bracket with
  | .group => ⟨group p.pattern, p.depth + 1⟩
  | .plain | .folded => ⟨p.pattern, p.depth + 1⟩

end Part

/-- What has been read since brackets were opened. -/
structure Opened where
  /-- The case of ASCII letters does not matter here. -/
  folded : Bool
  /-- The alternatives before the current one, last first. -/
  branches : List Part := []
  /-- The parts of the current alternative, last first. -/
  parts : List Part := []

namespace Opened

/-- The current alternative, as far as it has been read. -/
def branch (o : Opened) : Part := .joined inOrder o.parts.reverse

/-- All that has been read. -/
def body (o : Opened) : Part := .joined oneOf (o.branch :: o.branches).reverse

def push (o : Opened) (p : Part) : Opened := { o with parts := p :: o.parts }

def nextBranch (o : Opened) : Opened := { o with branches := o.branch :: o.branches, parts := [] }

/-- The last part repeated. There has to be one. -/
def repeatLast? (o : Opened) (count : Count) (greedy : Bool) : Option Opened :=
  match o.parts with
  | [] => none
  | last :: parts => some { o with parts := last.repeated count greedy :: parts }

end Opened

/-- The part that a sign stands for that is one character or the start of the text. Where case is
folded, a set speaks of the characters of ASCII alone. -/
def Sign.part? (folded : Bool) : Sign → Option Part
  | char c => some ⟨ofSet folded (if folded then .eitherCase (.single c) else .single c), 0⟩
  | any => if folded then none else some ⟨ofSet false .withinLine, 0⟩
  | blank => some ⟨ofSet folded (if folded then .asciiBlank else .blank), 0⟩
  | set s => (s.charSet? folded).map fun set => ⟨ofSet folded set, s.depth false⟩
  | start => some ⟨.start, 0⟩
  | _ => none

/-- The part that `signs` complete. `inner` is what has been read in the innermost brackets, and
`outer` are the brackets that are open, each with what stands before it. -/
def ofSigns? : List Sign → Opened → List (Bracket × Opened) → Option Part
  | [], inner, [] => some inner.body
  | [], _, _ :: _ => none
  | .opening bracket :: signs, inner, outer =>
    ofSigns? signs { folded := inner.folded || bracket = .folded } ((bracket, inner) :: outer)
  | .closing :: _, _, [] => none
  | .closing :: signs, inner, (bracket, parent) :: outer =>
    ofSigns? signs (parent.push (inner.body.bracketed bracket)) outer
  | .bar :: signs, inner, outer => ofSigns? signs inner.nextBranch outer
  | .repetition count greedy :: signs, inner, outer =>
    match inner.repeatLast? count greedy with
    | none => none
    | some inner => ofSigns? signs inner outer
  | sign :: signs, inner, outer =>
    match sign.part? inner.folded with
    | none => none
    | some part => ofSigns? signs (inner.push part) outer

/-- The pattern that `text` is the written form of. None if it is not well formed, or is not written
in the signs that are known. -/
def read? (text : List Char) : Option Pattern := do
  let marks ← marks? text
  let signs ← signs? marks
  let whole ← ofSigns? signs { folded := false } []
  if whole.depth ≤ maxNesting then some whole.pattern else none

end MathShorthand.Pattern
