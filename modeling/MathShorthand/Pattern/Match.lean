import MathShorthand.Pattern.Basic
import MathShorthand.Pattern.Tried

/-!
# Matching

`Pattern.find?` gives the leftmost piece of a text that a pattern describes, and of the pieces
that start there the preferred one.

Where a pattern leaves a choice, the ways to go on are tried in order of preference, and the first
that leads to a match of the whole pattern is kept. A choice that comes up again at the same
offset is not tried again. Either its first trial has failed, and would only fail once more, or it
is still going on, and a repetition came back to it without reading anything. So the work is
bounded by the number of choices times the length of the text.
-/

namespace MathShorthand.Pattern

/-- A place in a text. -/
structure Spot where
  /-- The number of characters before it. -/
  offset : Nat
  /-- The text after it. -/
  rest : List Char

/-- What an attempt to match has come to. -/
inductive Attempt where
  /-- A match that ends at the offset `stop`. -/
  | matched (stop : Nat)
  /-- No match, with the choices that are known to lead to none. -/
  | failed (tried : Tried)

def Attempt.orElse (a : Attempt) (next : Tried → Attempt) : Attempt :=
  match a with
  | matched stop => .matched stop
  | failed tried => next tried

def Attempt.stop? : Attempt → Option Nat
  | matched stop => some stop
  | failed _ => none

/-- What has to follow the piece at hand. -/
abbrev Continuation := Spot → Tried → Attempt

/-- The choice numbered `choice` between two ways to go on, the first one preferred. -/
def choose (choice : Nat) (first second : Continuation) : Continuation := fun spot tried =>
  if tried.contains choice spot.offset then .failed tried
  else (first spot (tried.insert choice spot.offset)).orElse (second spot)

def chooseMore (greedy : Bool) (choice : Nat) (more enough : Continuation) : Continuation :=
  if greedy then choose choice more enough else choose choice enough more

/-- The choice after each round of a repetition. It is tried once at an offset, so `rounds` need
not exceed the number of characters by more than one. -/
def again (greedy : Bool) (choice : Nat) (body : Continuation → Continuation)
    (enough : Continuation) : Nat → Continuation
  | 0 => fun _ tried => .failed tried
  | rounds + 1 => chooseMore greedy choice (body (again greedy choice body enough rounds)) enough

/-- Match `p`, whose choices are numbered from `first` on, and then go on with `next`. -/
def run : Pattern → Nat → Continuation → Continuation
  | empty, _, next => next
  | start, _, next => fun spot tried =>
    if spot.offset = 0 then next spot tried else .failed tried
  | literal text, _, next => fun spot tried =>
    if text.isPrefixOf spot.rest then
      next ⟨spot.offset + text.length, spot.rest.drop text.length⟩ tried
    else .failed tried
  | one _ set, _, next => fun spot tried =>
    match spot.rest with
    | [] => .failed tried
    | c :: rest => if set.contains c then next ⟨spot.offset + 1, rest⟩ tried else .failed tried
  | group a, first, next => run a first next
  | seq a b, first, next => run a first (run b (first + a.choices) next)
  | alt a b, first, next =>
    choose first (run a (first + 1) next) (run b (first + 1 + a.choices) next)
  | opt greedy a, first, next => chooseMore greedy first (run a (first + 1) next) next
  | plus greedy a, first, next => fun spot tried =>
    let body := run a (first + 1)
    body (again greedy first body next (spot.rest.length + 1)) spot tried
  | star greedy a, first, next => fun spot tried =>
    let body := run a (first + 2)
    let loop := again greedy first body next (spot.rest.length + 1)
    if a.nullable then chooseMore greedy (first + 1) (body loop) next spot tried
    else loop spot tried

/-- Where the preferred match that starts at `spot` ends. -/
def stop? (p : Pattern) (spot : Spot) : Option Nat :=
  (run p 0 (fun spot _ => .matched spot.offset) spot (.none p.choices)).stop?

/-- The leftmost match in `text`, which starts at `offset`. A pattern that only matches at the
very start of the text is tried nowhere else. -/
def findFrom? (p : Pattern) (offset : Nat) (text : List Char) : Option (List Char) :=
  match p.stop? ⟨offset, text⟩ with
  | some stop => some (text.take (stop - offset))
  | none =>
    match text with
    | [] => none
    | _ :: text => if p.anchored then none else findFrom? p (offset + 1) text

def find? (p : Pattern) (text : List Char) : Option (List Char) := p.findFrom? 0 text

end MathShorthand.Pattern
