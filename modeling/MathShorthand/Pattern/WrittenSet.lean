import MathShorthand.Pattern.CharSet

/-!
# Written sets

What stands between the brackets of a set: characters, ranges, blanks, other sets, and operations
on all of these. `WrittenSet.charSet?` says which characters are meant. Some classes of ASCII
characters have a name by which a set can list them, as in `[[:digit:].]`.
-/

namespace MathShorthand.Pattern

/-- An operation on sets, written as a doubled sign. -/
inductive SetOperation where
  | inter | diff | symmDiff
  deriving DecidableEq

def SetOperation.apply (a b : CharSet) : SetOperation → CharSet
  | inter => .inter a b
  | diff => .diff a b
  | symmDiff => .symmDiff a b

/-- The classes of ASCII characters that have a name. -/
def asciiClasses : List (String × CharSet) :=
  [("alnum", ⟨[(0x30, 0x39), (0x41, 0x5a), (0x61, 0x7a)]⟩),
   ("alpha", ⟨[(0x41, 0x5a), (0x61, 0x7a)]⟩),
   ("ascii", ⟨[(0x0, 0x7f)]⟩),
   ("blank", ⟨[(0x9, 0x9), (0x20, 0x20)]⟩),
   ("cntrl", ⟨[(0x0, 0x1f), (0x7f, 0x7f)]⟩),
   ("digit", ⟨[(0x30, 0x39)]⟩),
   ("graph", ⟨[(0x21, 0x7e)]⟩),
   ("lower", ⟨[(0x61, 0x7a)]⟩),
   ("print", ⟨[(0x20, 0x7e)]⟩),
   ("punct", ⟨[(0x21, 0x2f), (0x3a, 0x40), (0x5b, 0x60), (0x7b, 0x7e)]⟩),
   ("space", ⟨[(0x9, 0xd), (0x20, 0x20)]⟩),
   ("upper", ⟨[(0x41, 0x5a)]⟩),
   ("word", ⟨[(0x30, 0x39), (0x41, 0x5a), (0x5f, 0x5f), (0x61, 0x7a)]⟩),
   ("xdigit", ⟨[(0x30, 0x39), (0x41, 0x46), (0x61, 0x66)]⟩)]

/-- A set of characters as it is written. -/
inductive WrittenSet where
  | nothing
  | span (low high : Char)
  | blank
  /-- A class that has a name, or all characters outside of it. -/
  | named (negated : Bool) (members : CharSet)
  /-- One more member after `others`. -/
  | also (others member : WrittenSet)
  | operation (op : SetOperation) (left right : WrittenSet)
  | bracketed (negated : Bool) (body : WrittenSet)
  deriving DecidableEq

namespace WrittenSet

def add (s member : WrittenSet) : WrittenSet :=
  match s with
  | nothing => member
  | _ => also s member

/-- The characters of `s`, or all others. Where case is folded, a set speaks of the characters of
ASCII alone, so one that would hold others is refused. -/
def enclosed? (folded negated : Bool) (s : CharSet) : Option CharSet :=
  match folded, negated with
  | true, true => none
  | true, false => some (.eitherCase s)
  | false, true => some (.complement s)
  | false, false => some s

/-- The characters that are meant. Where case is folded, these are characters of ASCII. -/
def charSet? (folded : Bool) : WrittenSet → Option CharSet
  | nothing => some .empty
  | span low high => if folded && 128 ≤ high.toNat then none else some (.span low high)
  | blank => some (if folded then .asciiBlank else .blank)
  | named negated members => enclosed? folded negated members
  | also others member => do
    let a ← others.charSet? folded
    let b ← member.charSet? folded
    some (.union a b)
  | operation op left right => do
    let a ← left.charSet? folded
    let b ← right.charSet? folded
    some (if folded then op.apply (.eitherCase a) (.eitherCase b) else op.apply a b)
  | bracketed negated body => do
    let s ← body.charSet? folded
    enclosed? folded negated s

/-- The levels that the written form nests. All members of a set but a single one take a level
together, which `within` says is taken already. -/
def depth (within : Bool) : WrittenSet → Nat
  | nothing | span _ _ | blank | named _ _ => 0
  | also others member =>
    max (others.depth true) (member.depth false) + if within then 0 else 1
  | operation _ left right => max (left.depth false) (right.depth false) + 1
  | bracketed _ body => body.depth false + 1

end WrittenSet

end MathShorthand.Pattern
