import MathShorthand.Pattern.Basic

/-!
# Joined patterns

How patterns are put together: one after another, side by side, and repeatedly. What can be said
in a simpler way is. Texts in a row are one text, alternatives for single characters are one set,
and where all alternatives begin with the same parts, these parts come first and the alternatives
are for what follows.

The last rule bears on what is preferred. `.*b|.*c` is `.*` with one of `b` and `c` after it, and
takes all of `bc`, where its first alternative alone would take `b`.
-/

namespace MathShorthand.Pattern

/-- One character of the set. A set of a single character is that character. -/
def ofSet (folded : Bool) (set : CharSet) : Pattern :=
  match set.only? with
  | some c => literal [c]
  | none => one (folded && set ≠ .empty) set

/-! ### One after another -/

def parts : Pattern → List Pattern
  | empty => []
  | seq a b => a.parts ++ b.parts
  | p => [p]

/-- The parts after one more. Two texts become one. -/
def consPart : Pattern → List Pattern → List Pattern
  | literal a, literal b :: parts => literal (a ++ b) :: parts
  | p, parts => p :: parts

def ofParts : List Pattern → Pattern
  | [] => empty
  | [a] => a
  | a :: parts => seq a (ofParts parts)

/-- One pattern after another. -/
def inOrder (patterns : List Pattern) : Pattern :=
  ofParts ((patterns.flatMap parts).foldr consPart [])

/-! ### Side by side -/

def branches : Pattern → List Pattern
  | alt a b => a.branches ++ b.branches
  | p => [p]

/-- The choice between the branches, the first one preferred. -/
def ofBranches : List Pattern → Pattern
  | [] => empty
  | [a] => a
  | a :: branches => alt a (ofBranches branches)

def charSet? : Pattern → Option CharSet
  | literal [c] => some (.single c)
  | _ => none

def set? : Pattern → Option CharSet
  | one _ set => some set
  | _ => none

/-- The set of all characters that some branch takes, if all branches are characters or all are
sets. -/
def commonSet? (branches : List Pattern) : Option CharSet :=
  ((branches.mapM charSet?).or (branches.mapM set?)).map (·.foldl .union .empty)

/-- Any of the patterns, the first one preferred, whatever they begin with. -/
def anyOf (patterns : List Pattern) : Pattern :=
  let branches := patterns.flatMap branches
  match commonSet? branches with
  | some set => ofSet false set
  | none => ofBranches branches

/-- The parts that both lists begin with. Each group is one of its own, so no part with a group in
it is the same as another. -/
def sharedParts : List Pattern → List Pattern → List Pattern
  | a :: as, b :: bs => if a = b && !a.hasGroup then a :: sharedParts as bs else []
  | _, _ => []

/-- The parts that all the branches begin with. They share none if some branch is no sequence. -/
def sharedBeginning (branches : List Pattern) : List Pattern :=
  match branches.map parts with
  | [] => []
  | first :: others =>
    if (first :: others).all (2 ≤ ·.length) then others.foldl sharedParts first else []

/-- Any of the patterns, the first one preferred. What all of them begin with comes before the
choice. -/
def oneOf (patterns : List Pattern) : Pattern :=
  match patterns.flatMap branches with
  | [p] => p
  | branches =>
    match sharedBeginning branches with
    | [] => anyOf branches
    | beginning =>
      let rest := branches.map fun branch => inOrder (branch.parts.drop beginning.length)
      inOrder (beginning ++ [anyOf rest])

/-! ### Repeatedly -/

/-- The pattern any number of times. The empty piece comes but once. -/
def anyNumber (greedy : Bool) (p : Pattern) : Pattern :=
  if p.hollow then opt greedy p else star greedy p

/-- The pattern once or more. The empty piece comes but once. -/
def atLeastOnce (greedy : Bool) (p : Pattern) : Pattern :=
  if p.hollow then p else plus greedy p

end MathShorthand.Pattern
