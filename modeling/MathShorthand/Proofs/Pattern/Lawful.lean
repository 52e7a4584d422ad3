import MathShorthand.Operator.Standard
import MathShorthand.Proofs.Operator.Lawful
import MathShorthand.Proofs.Pattern.Search
import MathShorthand.Proofs.Pattern.Wrapped

/-!
# Patterns are lawful

What a pattern describes is what it takes (`Takes`), and the search for it finds the leftmost of that.
Joining patterns changes their form but not what they describe (`takes_inOrder`), so a written
pattern means what its parts mean.
-/

namespace MathShorthand

namespace Pattern

/-! ### Patterns in a row -/

/-- The patterns describe the piece one after another. -/
def TakesRow : List Pattern → Bool → List Char → Prop
  | [], _, piece => piece = []
  | p :: ps, atStart, piece =>
    ∃ u v, piece = u ++ v ∧ p.Takes atStart u ∧ TakesRow ps (atStart && u.isEmpty) v

variable {atStart : Bool} {piece : List Char}

theorem takesRow_singleton (p : Pattern) : TakesRow [p] atStart piece ↔ p.Takes atStart piece := by
  constructor
  · rintro ⟨u, v, rfl, takes, rfl⟩
    rwa [List.append_nil]
  · exact fun takes => ⟨piece, [], (List.append_nil piece).symm, takes, rfl⟩

theorem isEmpty_append (u v : List Char) : (u ++ v).isEmpty = (u.isEmpty && v.isEmpty) := by
  cases u <;> rfl

theorem takesRow_append (ps qs : List Pattern) :
    TakesRow (ps ++ qs) atStart piece ↔
      ∃ u v, piece = u ++ v ∧ TakesRow ps atStart u ∧ TakesRow qs (atStart && u.isEmpty) v := by
  induction ps generalizing atStart piece with
  | nil =>
    constructor
    · exact fun row => ⟨[], piece, rfl, rfl, by rwa [List.isEmpty_nil, Bool.and_true]⟩
    · rintro ⟨u, v, rfl, rfl, row⟩
      rwa [List.isEmpty_nil, Bool.and_true] at row
  | cons p ps ih =>
    constructor
    · rintro ⟨u, v, rfl, takes, row⟩
      obtain ⟨v, w, rfl, first, second⟩ := ih.mp row
      refine ⟨u ++ v, w, (List.append_assoc u v w).symm, ⟨u, v, rfl, takes, first⟩, ?_⟩
      rwa [isEmpty_append, ← Bool.and_assoc]
    · rintro ⟨_, w, rfl, ⟨u, v, rfl, takes, first⟩, second⟩
      refine ⟨u, v ++ w, List.append_assoc u v w, takes, ih.mpr ⟨v, w, rfl, first, ?_⟩⟩
      rwa [isEmpty_append, ← Bool.and_assoc] at second

theorem takes_seq_iff (a b : Pattern) :
    (seq a b).Takes atStart piece ↔
      ∃ u v, piece = u ++ v ∧ a.Takes atStart u ∧ b.Takes (atStart && u.isEmpty) v := by
  constructor
  · intro takes
    cases takes with
    | seq first second => exact ⟨_, _, rfl, first, second⟩
  · rintro ⟨u, v, rfl, first, second⟩
    exact .seq first second

theorem takes_empty_iff : empty.Takes atStart piece ↔ piece = [] := by
  constructor
  · intro takes
    cases takes
    rfl
  · rintro rfl
    exact .empty

theorem takes_literal_iff (text : List Char) :
    (literal text).Takes atStart piece ↔ piece = text := by
  constructor
  · intro takes
    cases takes
    rfl
  · rintro rfl
    exact .literal piece

theorem takes_start_iff : start.Takes atStart piece ↔ atStart = true ∧ piece = [] := by
  constructor
  · intro takes
    cases takes
    exact ⟨rfl, rfl⟩
  · rintro ⟨rfl, rfl⟩
    exact .start

theorem takesRow_parts (p : Pattern) : TakesRow p.parts atStart piece ↔ p.Takes atStart piece := by
  induction p generalizing atStart piece with
  | empty => exact takes_empty_iff.symm
  | seq a b ih_a ih_b =>
    rw [parts, takesRow_append, takes_seq_iff]
    simp only [ih_a, ih_b]
  | _ => exact takesRow_singleton _

theorem takesRow_consPart (p : Pattern) (ps : List Pattern) :
    TakesRow (consPart p ps) atStart piece ↔ TakesRow (p :: ps) atStart piece := by
  unfold consPart
  split
  · next a b ps =>
    simp only [TakesRow, takes_literal_iff]
    constructor
    · rintro ⟨_, v, rfl, rfl, row⟩
      refine ⟨a, b ++ v, List.append_assoc a b v, rfl, b, v, rfl, rfl, ?_⟩
      rwa [isEmpty_append, ← Bool.and_assoc] at row
    · rintro ⟨_, _, rfl, rfl, _, v, rfl, rfl, row⟩
      refine ⟨_, v, (List.append_assoc _ _ v).symm, rfl, ?_⟩
      rwa [isEmpty_append, ← Bool.and_assoc]
  · rfl

theorem takesRow_foldr (ps : List Pattern) :
    TakesRow (ps.foldr consPart []) atStart piece ↔ TakesRow ps atStart piece := by
  induction ps generalizing atStart piece with
  | nil => rfl
  | cons p ps ih =>
    rw [List.foldr_cons, takesRow_consPart]
    simp only [TakesRow, ih]

theorem takesRow_flatMap (ps : List Pattern) :
    TakesRow (ps.flatMap parts) atStart piece ↔ TakesRow ps atStart piece := by
  induction ps generalizing atStart piece with
  | nil => rfl
  | cons p ps ih =>
    rw [List.flatMap_cons, takesRow_append]
    simp only [TakesRow, takesRow_parts, ih]

theorem takes_ofParts (ps : List Pattern) :
    (ofParts ps).Takes atStart piece ↔ TakesRow ps atStart piece := by
  induction ps generalizing atStart piece with
  | nil => exact takes_empty_iff
  | cons p ps ih =>
    cases ps with
    | nil => exact (takesRow_singleton p).symm
    | cons q ps =>
      change (seq p (ofParts (q :: ps))).Takes atStart piece ↔ _
      rw [takes_seq_iff]
      simp only [TakesRow, ih]

theorem takes_inOrder (ps : List Pattern) :
    (inOrder ps).Takes atStart piece ↔ TakesRow ps atStart piece := by
  rw [inOrder, takes_ofParts, takesRow_foldr, takesRow_flatMap]

/-! ### What stands between brackets -/

theorem takes_inOrder_start (p : Pattern) :
    (inOrder [start, p]).Takes atStart piece ↔ atStart = true ∧ p.Takes true piece := by
  rw [takes_inOrder]
  simp only [TakesRow, takes_start_iff]
  constructor
  · rintro ⟨_, _, rfl, ⟨rfl, rfl⟩, u, _, rfl, takes, rfl⟩
    exact ⟨rfl, by simpa using takes⟩
  · rintro ⟨rfl, takes⟩
    exact ⟨[], piece, rfl, ⟨rfl, rfl⟩, piece, [], (List.append_nil piece).symm, takes, rfl⟩

/-- With the start of the text in front, a pattern is no choice between others. -/
theorem exists_inOrder_start (p : Pattern) : ∃ tail, inOrder [start, p] = ofParts (start :: tail) :=
  ⟨_, rfl⟩

theorem oneOf_start (p : Pattern) : oneOf [inOrder [start, p]] = inOrder [start, p] := by
  obtain ⟨tail, starts⟩ := exists_inOrder_start p
  rw [starts]
  cases tail <;> rfl

theorem oneOf_start_group (p q : Pattern) :
    oneOf [inOrder [start, p], inOrder [group q]] = alt (inOrder [start, p]) (group q) := by
  have alone : inOrder [group q] = group q := rfl
  obtain ⟨tail, starts⟩ := exists_inOrder_start p
  rw [starts, alone]
  cases tail with
  | nil => rfl
  | cons a tail =>
    -- the group is a single part, so the alternatives share no beginning
    have apart : sharedBeginning [seq start (ofParts (a :: tail)), group q] = [] := by
      simp [sharedBeginning, parts]
    have whole : ofParts (start :: a :: tail) = seq start (ofParts (a :: tail)) := rfl
    simp [oneOf, whole, branches, apart, anyOf, commonSet?, charSet?, set?, ofBranches]

theorem takes_alt_iff (a b : Pattern) :
    (alt a b).Takes atStart piece ↔ a.Takes atStart piece ∨ b.Takes atStart piece := by
  constructor
  · intro takes
    cases takes with
    | altLeft left => exact .inl left
    | altRight right => exact .inr right
  · exact fun takes => takes.elim .altLeft .altRight

theorem takes_group_iff (a : Pattern) :
    (group a).Takes atStart piece ↔ a.Takes atStart piece := by
  constructor
  · intro takes
    cases takes with
    | group inner => exact inner
  · exact .group

theorem read?_plain {c : Char} {p : Pattern} (plain : c ∉ metacharacters)
    (read : read? [c] = some p) : p = literal [c] := by
  have no_backslash : c ≠ '\\' := by
    rintro rfl
    exact plain (by decide)
  have marked : marks? [c] = some [literalMark c] := by
    simp [marks?, no_backslash, literalMark, plain]
  have signed : signs? [literalMark c] = some [.char c] := signs?_literalMark_cons c []
  have only : (CharSet.single c).only? = some c := by
    simp [CharSet.single, CharSet.span, CharSet.only?]
  obtain ⟨marks, signs, whole, marked', signed', parsed, rfl⟩ := exists_of_read? read
  obtain rfl := Option.some.inj (marked.symm.trans marked')
  obtain rfl := Option.some.inj (signed.symm.trans signed')
  cases parsed
  have set : ofSet false (.single c) = literal [c] := by rw [ofSet, only]
  change oneOf [inOrder [ofSet false (.single c)]] = literal [c]
  rw [set]
  rfl

end Pattern

instance : LawfulRegex Pattern where
  Describes p before piece _ := p.Takes before.isEmpty piece
  leftmost found := by
    obtain ⟨before, after, split, takes, first⟩ := Pattern.find?_eq_some found
    exact ⟨before, after, split, takes, first⟩
  missed missed := Pattern.find?_eq_none_iff.mp missed
  literal plain read before piece after := by
    rw [Pattern.read?_plain plain read, Pattern.takes_literal_iff]
  anchored alone read before piece after := by
    rw [Pattern.read?_wrapped alone read, Pattern.oneOf_start, Pattern.takes_inOrder_start,
      List.isEmpty_iff]
    refine and_congr_right fun at_start => ?_
    rw [at_start]
    rfl
  alternatives _ alone alone' read before piece after := by
    rw [Pattern.read?_alternatives alone alone' read, Pattern.oneOf_start_group,
      Pattern.takes_alt_iff, Pattern.takes_group_iff, Pattern.takes_inOrder_start, List.isEmpty_iff]
    refine or_congr_left (and_congr_right fun at_start => ?_)
    rw [at_start]
    rfl

end MathShorthand
