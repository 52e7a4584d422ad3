import MathShorthand.Pattern.Mark
import MathShorthand.Pattern.WrittenSet

/-!
# Signs

The written form of a pattern is a sequence of signs, such as brackets, repetitions and sets. Most
characters are signs for themselves.

These are not all the signs there are. Anchors other than `^`, repetitions by number, named groups,
flags other than those of `(?i-u:` and classes of characters other than `\s` and those in sets are
not read, and a pattern that is written with them is refused.
-/

namespace MathShorthand.Pattern

inductive Count where
  | anyNumber | atLeastOnce | atMostOnce
  deriving DecidableEq

/-- A pair of brackets. -/
inductive Bracket where
  /-- Brackets that make a group, opened by `(`. -/
  | group
  /-- Brackets that only hold together, opened by `(?:`. -/
  | plain
  /-- Brackets in which the case of ASCII letters does not matter, opened by `(?i-u:`. -/
  | folded
  deriving DecidableEq

/-- An element of the written form of a pattern. -/
inductive Sign where
  /-- A character that stands for itself. -/
  | char (c : Char)
  /-- Any character within a line, written `.`. -/
  | any
  /-- A blank, written `\s`. -/
  | blank
  /-- One of some characters, or none of them, written `[...]` and `[^...]`. -/
  | set (set : WrittenSet)
  /-- The very start of the text, written `^`. -/
  | start
  | opening (bracket : Bracket)
  /-- The end of brackets, written `)`. -/
  | closing
  /-- What parts alternatives, written `|`. -/
  | bar
  /-- A repetition, written `*`, `+` or `?`, and with another `?` if it is not greedy. -/
  | repetition (count : Count) (greedy : Bool)
  deriving DecidableEq

/-! ### Sets -/

/-- How much of the front of a set has been read. -/
inductive SetFront where
  | opened
  | negated
  /-- All that and dashes, which stand for themselves here. -/
  | dashes
  | past
  /-- A class that has a name is being read, up to its closing bracket. -/
  | named
  deriving DecidableEq

/-- A set whose closing bracket is still to come. -/
structure OpenSet where
  negated : Bool := false
  /-- An operation whose right operand is being read, and its left operand. -/
  pending : Option (SetOperation × WrittenSet) := none
  /-- The members that have been read, since the operation if there is one. -/
  members : WrittenSet := .nothing

namespace OpenSet

def add (s : OpenSet) (member : WrittenSet) : OpenSet := { s with members := s.members.add member }

/-- All that has been read of the set, with the pending operation carried out. -/
def body (s : OpenSet) : WrittenSet :=
  match s.pending with
  | none => s.members
  | some (op, left) => .operation op left s.members

/-- The set at the start of the right operand of `op`. Operations are carried out from left to
right. -/
def operate (s : OpenSet) (op : SetOperation) : OpenSet :=
  { s with pending := some (op, s.body), members := .nothing }

def close (s : OpenSet) : WrittenSet := .bracketed s.negated s.body

end OpenSet

namespace Mark

def member : Mark → WrittenSet
  | plain c | escaped c => .span c c
  | blank => .blank

/-- The range between two marks. Both have to be characters, in ascending order. -/
def range? : Mark → Mark → Option WrittenSet
  | blank, _ => none
  | _, blank => none
  | plain a, plain b | plain a, escaped b | escaped a, plain b | escaped a, escaped b =>
    if a ≤ b then some (.span a b) else none

end Mark

/-- The ways to list a class by its name, behind the opening bracket. A `^` before the name takes all
other characters. -/
def namedClasses : List (List Mark × WrittenSet) :=
  asciiClasses.flatMap fun (name, members) =>
    [((":" ++ name ++ ":]").toList.map .plain, .named false members),
     ((":^" ++ name ++ ":]").toList.map .plain, .named true members)]

/-- The class whose name the marks behind an opening bracket begin with. -/
def namedClass? (marks : List Mark) : Option WrittenSet :=
  (namedClasses.find? (·.1.isPrefixOf marks)).map (·.2)

/-! ### Reading signs -/

mutual

def signs? : List Mark → Option (List Sign)
  | [] => some []
  | .blank :: marks => (signs? marks).map (.blank :: ·)
  | .escaped c :: marks => (signs? marks).map (.char c :: ·)
  | .plain '[' :: marks => signsInSet? .opened {} [] marks
  | .plain '(' :: .plain '?' :: .plain ':' :: marks => (signs? marks).map (.opening .plain :: ·)
  | .plain '(' :: .plain '?' :: .plain 'i' :: .plain '-' :: .plain 'u' :: .plain ':' :: marks =>
    (signs? marks).map (.opening .folded :: ·)
  | .plain '(' :: .plain '?' :: _ => none
  | .plain '(' :: marks => (signs? marks).map (.opening .group :: ·)
  | .plain ')' :: marks => (signs? marks).map (.closing :: ·)
  | .plain '|' :: marks => (signs? marks).map (.bar :: ·)
  | .plain '*' :: .plain '?' :: marks => (signs? marks).map (.repetition .anyNumber false :: ·)
  | .plain '*' :: marks => (signs? marks).map (.repetition .anyNumber true :: ·)
  | .plain '+' :: .plain '?' :: marks => (signs? marks).map (.repetition .atLeastOnce false :: ·)
  | .plain '+' :: marks => (signs? marks).map (.repetition .atLeastOnce true :: ·)
  | .plain '?' :: .plain '?' :: marks => (signs? marks).map (.repetition .atMostOnce false :: ·)
  | .plain '?' :: marks => (signs? marks).map (.repetition .atMostOnce true :: ·)
  | .plain '.' :: marks => (signs? marks).map (.any :: ·)
  | .plain '^' :: marks => (signs? marks).map (.start :: ·)
  | .plain '$' :: _ => none
  | .plain '\x7b' :: _ => none
  | .plain c :: marks => (signs? marks).map (.char c :: ·)

/-- The signs from inside a set on, where `set` is the innermost set that is open and `outer` are
the others. A dash between two characters makes a range of them, and a doubled `&`, `-` or `~` is
an operation. -/
def signsInSet? : SetFront → OpenSet → List OpenSet → List Mark → Option (List Sign)
  | _, _, _, [] => none
  | .named, set, outer, .plain ']' :: marks => signsInSet? .past set outer marks
  | .named, set, outer, _ :: marks => signsInSet? .named set outer marks
  | .opened, set, outer, .plain '^' :: marks =>
    signsInSet? .negated { set with negated := true } outer marks
  | .opened, set, outer, .plain ']' :: marks
  | .negated, set, outer, .plain ']' :: marks =>
    signsInSet? .past (set.add (.span ']' ']')) outer marks
  | .opened, set, outer, .plain '-' :: marks
  | .negated, set, outer, .plain '-' :: marks
  | .dashes, set, outer, .plain '-' :: marks =>
    signsInSet? .dashes (set.add (.span '-' '-')) outer marks
  | _, set, [], .plain ']' :: marks => (signs? marks).map (.set set.close :: ·)
  | _, set, parent :: outer, .plain ']' :: marks =>
    signsInSet? .past (parent.add set.close) outer marks
  | _, set, outer, .plain '[' :: marks =>
    match namedClass? marks with
    | some members => signsInSet? .named (set.add members) outer marks
    | none => signsInSet? .opened {} (set :: outer) marks
  | _, set, outer, .plain '&' :: .plain '&' :: marks =>
    signsInSet? .past (set.operate .inter) outer marks
  | _, set, outer, .plain '-' :: .plain '-' :: marks =>
    signsInSet? .past (set.operate .diff) outer marks
  | _, set, outer, .plain '~' :: .plain '~' :: marks =>
    signsInSet? .past (set.operate .symmDiff) outer marks
  | _, set, outer, mark :: .plain '-' :: .plain ']' :: marks =>
    signsInSet? .past (set.add mark.member) outer (.plain '-' :: .plain ']' :: marks)
  | _, set, outer, mark :: .plain '-' :: .plain '-' :: marks =>
    signsInSet? .past (set.add mark.member) outer (.plain '-' :: .plain '-' :: marks)
  | _, set, outer, low :: .plain '-' :: high :: marks =>
    match low.range? high with
    | none => none
    | some range => signsInSet? .past (set.add range) outer marks
  | _, set, outer, mark :: marks => signsInSet? .past (set.add mark.member) outer marks

end

end MathShorthand.Pattern
