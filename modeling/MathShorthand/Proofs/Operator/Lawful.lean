import MathShorthand.Operator.Basic

/-!
# What an operator recognizes

An operator is written without the start of the text, which is put in front of its pattern. Whether
it recognizes the front of a text and nothing else depends on how its pattern goes together with
what is put around it. It does if the pattern is well formed on its own (`prefix_of_recognize`). An
alternative that is left outside of the brackets is recognized anywhere (`recognize_past_start`).

Nothing is asked of regular expressions but what is documented of them (`LawfulRegex`).
-/

namespace MathShorthand

/-- Regular expressions that mean what is documented of them. -/
class LawfulRegex (R : Type) [Regex R] where
  /-- The expression describes `piece` where it stands between `before` and `after`. -/
  Describes (r : R) (before piece after : List Char) : Prop
  /-- What is found is described, and nothing is that starts before it. -/
  leftmost {r : R} {text piece : List Char} (found : Regex.find? r text = some piece) :
    ∃ before after, text = before ++ piece ++ after ∧ Describes r before piece after ∧
      ∀ u w v, text = u ++ w ++ v → u.length < before.length → ¬Describes r u w v
  /-- Nothing is described in a text in which nothing is found. -/
  missed {r : R} {text : List Char} (missed : Regex.find? r text = none) (u w v : List Char)
    (split : text = u ++ w ++ v) : ¬Describes r u w v
  /-- A character describes itself, unless it means something else. -/
  literal {c : Char} {r : R} (plain : c ∉ Pattern.metacharacters) (read : Regex.read? [c] = some r)
    (before piece after : List Char) : Describes r before piece after ↔ piece = [c]
  /-- A `^` asks for the start of the text, and all between `(?:` and `)` belongs together. -/
  anchored {e : List Char} {r whole : R} (alone : Regex.read? e = some r)
    (read : Regex.read? ("^(?:".toList ++ e ++ [')']) = some whole)
    (before piece after : List Char) :
    Describes whole before piece after ↔ before = [] ∧ Describes r before piece after
  /-- A `|` outside of all brackets parts two alternatives, unless a comment has swallowed them. -/
  alternatives {e e' : List Char} {r r' whole : R} (no_comment : '#' ∉ e)
    (alone : Regex.read? e = some r)
    (alone' : Regex.read? e' = some r')
    (read : Regex.read? ("^(?:".toList ++ e ++ ")|(".toList ++ e' ++ [')']) = some whole)
    (before piece after : List Char) :
    Describes whole before piece after ↔
      before = [] ∧ Describes r before piece after ∨ Describes r' before piece after

namespace Operator

variable {R : Type} [Regex R]

theorem recognize_eq_some_iff {op : Operator R} {text piece : List Char} :
    op.recognize text = some piece ↔ Regex.find? op.pattern text = some piece ∧ piece ≠ [] := by
  simp [recognize, Option.filter_eq_some_iff]

/-- The operator is made from a pattern that is well formed on its own. -/
def WellFormed (op : Operator R) : Prop :=
  ∃ kind pattern breaksNames, ofPattern? kind pattern breaksNames = some op ∧
    (Regex.read? pattern.toList : Option R).isSome = true

variable [LawfulRegex R] {op : Operator R} {text piece : List Char}

open LawfulRegex (Describes)

theorem recognize_nil (op : Operator R) : op.recognize [] = none := by
  cases recognized : op.recognize [] with
  | none => rfl
  | some piece =>
    obtain ⟨found, some_text⟩ := recognize_eq_some_iff.mp recognized
    obtain ⟨before, after, split, -⟩ := LawfulRegex.leftmost found
    simp [some_text] at split

theorem prefix_of_recognize (formed : op.WellFormed) (recognized : op.recognize text = some piece) :
    piece ≠ [] ∧ piece <+: text := by
  obtain ⟨kind, pattern, breaksNames, accepted, alone⟩ := formed
  obtain ⟨r, alone⟩ := Option.isSome_iff_exists.mp alone
  obtain ⟨whole, read, rfl⟩ := Option.map_eq_some_iff.mp accepted
  obtain ⟨found, some_text⟩ := recognize_eq_some_iff.mp recognized
  obtain ⟨before, after, rfl, described, -⟩ := LawfulRegex.leftmost found
  obtain ⟨rfl, -⟩ := (LawfulRegex.anchored alone read before piece after).mp described
  exact ⟨some_text, after, rfl⟩

/-- What the second of two alternatives describes is recognized where it stands, unless there is
something before it. -/
theorem recognize_past_start {kind : Kind} {e e' : String} {breaksNames : Bool} {r r' : R}
    (accepted : ofPattern? kind (e ++ ")|(" ++ e') breaksNames = some op) (no_comment : '#' ∉ e.toList)
    (alone : Regex.read? e.toList = some r) (alone' : Regex.read? e'.toList = some r')
    {u w v : List Char} (some_text : w ≠ []) (described : Describes r' u w v)
    (no_start : ∀ piece after, u ++ w ++ v = piece ++ after → ¬Describes r [] piece after)
    (first : ∀ before piece after, u ++ w ++ v = before ++ piece ++ after →
      Describes r' before piece after → before = u ∧ piece = w) :
    op.recognize (u ++ w ++ v) = some w := by
  obtain ⟨whole, read, rfl⟩ := Option.map_eq_some_iff.mp accepted
  rw [String.toList_append, String.toList_append] at read
  have means := LawfulRegex.alternatives no_comment alone alone' (by simpa using read)
  refine recognize_eq_some_iff.mpr ⟨?_, some_text⟩
  cases found : Regex.find? whole (u ++ w ++ v) with
  | none => exact absurd ((means u w v).mpr (.inr described)) (LawfulRegex.missed found u w v rfl)
  | some piece =>
    obtain ⟨before, after, split, meant, -⟩ := LawfulRegex.leftmost found
    rcases (means before piece after).mp meant with ⟨rfl, here⟩ | later
    · exact absurd here (no_start piece after split)
    · rw [(first before piece after split later).2]

end Operator

end MathShorthand
