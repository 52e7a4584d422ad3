import MathShorthand.Operator.Standard
import Mathlib.Data.List.Find

/-!
# Wrapped patterns

An operator reads its pattern between `^(?:` and `)`. Where the pattern is well formed on its own,
the brackets that are put around it hold all of it together (`read?_wrapped`). Where it is not, they
may close elsewhere, and an alternative may be left outside (`read?_alternatives`).
-/

namespace MathShorthand.Pattern

theorem marks?_append {text : List Char} {marks : List Mark} (read : marks? text = some marks)
    (rest : List Char) : marks? (text ++ rest) = (marks? rest).map (marks ++ ·) := by
  fun_induction marks? text generalizing marks with
  | case1 =>
    cases read
    simp
  | case2 text ih =>
    obtain ⟨marks', read', rfl⟩ := Option.map_eq_some_iff.mp read
    simp [marks?, ih read', Function.comp_def]
  | case3 c text other escapable ih =>
    obtain ⟨marks', read', rfl⟩ := Option.map_eq_some_iff.mp read
    simp [marks?, escapable, ih read', Function.comp_def]
  | case4 | case5 => cases read
  | case6 c text no_blank no_escaped no_backslash ih =>
    obtain ⟨marks', read', rfl⟩ := Option.map_eq_some_iff.mp read
    have no_backslash' : c ≠ '\\' := by
      intro backslash
      cases text with
      | nil => exact no_backslash backslash rfl
      | cons c' text => exact no_escaped c' text backslash rfl
    simp [marks?, no_backslash', ih read', Function.comp_def]

/-- A closing bracket behind the marks does not make them begin with other marks. -/
theorem exists_of_append_closing {marks more rest : List Mark} (front : List Mark)
    (clean : .plain ')' ∉ front) (begins : marks ++ .plain ')' :: more = front ++ rest) :
    ∃ rest, marks = front ++ rest := by
  rcases List.append_eq_append_iff.mp begins with ⟨back, rfl, behind⟩ | ⟨back, split, -⟩
  · cases back with
    | nil => exact ⟨[], by rw [List.append_nil, List.append_nil]⟩
    | cons mark back =>
      obtain ⟨rfl, -⟩ := List.cons.inj behind
      simp at clean
  · exact ⟨back, split⟩

/-- No round bracket is part of the name of a class. -/
theorem namedClass?_append_closing (marks more : List Mark) :
    namedClass? (marks ++ .plain ')' :: more) = namedClass? marks := by
  have clean : ∀ written ∈ namedClasses, Mark.plain ')' ∉ written.1 := by decide
  refine congrArg (Option.map _) (List.find?_congr fun written listed => ?_)
  rw [Bool.eq_iff_iff, List.isPrefixOf_iff_prefix, List.isPrefixOf_iff_prefix]
  constructor
  · rintro ⟨rest, begins⟩
    obtain ⟨rest', split⟩ := exists_of_append_closing _ (clean written listed) begins.symm
    exact ⟨rest', split.symm⟩
  · exact fun begins => begins.trans (List.prefix_append _ _)

/-- What is read goes on with a closing bracket and then with `more`. -/
def GoesOn (more : List Mark) (read whole : Option (List Sign)) : Prop :=
  ∀ signs, read = some signs → whole = (signs? more).map (signs ++ .closing :: ·)

theorem GoesOn.none (more : List Mark) (whole : Option (List Sign)) : GoesOn more none whole := nofun

theorem GoesOn.cons {more : List Mark} {read whole : Option (List Sign)} (sign : Sign)
    (goes_on : GoesOn more read whole) :
    GoesOn more (read.map (sign :: ·)) (whole.map (sign :: ·)) := by
  intro signs some_signs
  obtain ⟨signs, rfl, rfl⟩ := Option.map_eq_some_iff.mp some_signs
  rw [goes_on signs rfl, Option.map_map]
  rfl

/-- A single mark can only close a set. -/
theorem signsInSet?_singleton {mark : Mark} (other : mark ≠ .plain ']') (front : SetFront)
    (set : OpenSet) (outer : List OpenSet) : signsInSet? front set outer [mark] = none := by
  have no_class : namedClass? [] = none := by decide
  unfold signsInSet?
  split <;> simp_all [signsInSet?]

/-- The signs of some marks go on behind a closing bracket as if they stood alone. -/
theorem signs?_append_closing (more : List Mark) :
    (∀ marks, GoesOn more (signs? marks) (signs? (marks ++ .plain ')' :: more))) ∧
    ∀ front set outer marks, GoesOn more (signsInSet? front set outer marks)
      (signsInSet? front set outer (marks ++ .plain ')' :: more)) := by
  have question {marks : List Mark} (other : ∀ rest, marks = .plain '?' :: rest → False)
      (rest : List Mark) (begins : marks ++ .plain ')' :: more = .plain '?' :: rest) : False := by
    obtain ⟨rest', split⟩ := exists_of_append_closing [.plain '?'] (by decide) begins
    exact other rest' split
  apply signs?.mutual_induct
  case case1 =>
    intro signs read
    cases read
    exact signs?.eq_9 more
  case case7 =>
    intro tail no_plain no_folded
    rw [signs?.eq_7 _ no_plain no_folded]
    exact .none more _
  case case8 =>
    intro marks _ _ no_flags ih
    have no_flags' := question no_flags
    simp_all [signs?, GoesOn.cons]
  case case12 | case14 | case16 =>
    intro marks greedy ih
    have greedy' := question greedy
    simp_all [signs?, GoesOn.cons]
  case case22 =>
    intro front set outer
    rw [signsInSet?]
    exact .none more _
  case case42 =>
    intro front set outer mark marks
    intros
    cases marks with
    | nil => simp_all [signsInSet?, GoesOn.none]
    | cons m marks =>
      cases marks with
      | nil =>
        by_cases closed : m = .plain ']'
        · simp_all [signsInSet?]
        · -- the bracket may end a range here, but the set is never closed
          simp_all [signsInSet?, signsInSet?_singleton, GoesOn.none]
      | cons high marks => simp_all [signsInSet?]
  all_goals
    intros
    simp_all [signs?, signsInSet?, namedClass?_append_closing, GoesOn.none, GoesOn.cons]

/-- Signs that make a whole leave all brackets outside of them as they are. -/
theorem ofSigns?_append {signs : List Sign} {inner : Opened}
    {outer : List (Bracket × Opened)} {whole : Part}
    (read : ofSigns? signs inner outer = some whole) :
    ∃ last : Opened, whole = last.body ∧
      ∀ rest more, ofSigns? (signs ++ rest) inner (outer ++ more) = ofSigns? rest last more := by
  fun_induction ofSigns? signs inner outer with
  | case1 inner =>
    cases read
    exact ⟨inner, rfl, fun rest more => rfl⟩
  | case2 => cases read
  | case4 | case7 | case9 => cases read
  | case8 count greedy signs inner outer inner' repeated ih =>
    obtain ⟨last, body, goes_on⟩ := ih read
    refine ⟨last, body, fun rest more => ?_⟩
    rw [← goes_on rest more, List.cons_append, ofSigns?, repeated]
  | case10 sign signs inner outer no_opening no_closing no_closing' no_bar no_repetition part taken
      ih =>
    obtain ⟨last, body, goes_on⟩ := ih read
    refine ⟨last, body, fun rest more => ?_⟩
    have never_closing : sign ≠ .closing := by
      intro closing
      cases outer with
      | nil => exact no_closing rfl closing
      | cons parent outer => exact no_closing' parent.1 parent.2 outer rfl closing
    rw [← goes_on rest more, List.cons_append, ofSigns?, taken] <;> simp_all
  | case3 _ _ _ _ ih | case5 _ _ _ _ _ ih | case6 _ _ _ ih =>
    obtain ⟨last, body, goes_on⟩ := ih read
    exact ⟨last, body, fun rest more => goes_on rest more⟩

theorem exists_of_read? {text : List Char} {p : Pattern} (read : read? text = some p) :
    ∃ marks signs whole, marks? text = some marks ∧ signs? marks = some signs ∧
      ofSigns? signs { folded := false } [] = some whole ∧ whole.pattern = p := by
  simp only [read?, Option.bind_eq_bind, Option.bind_eq_some_iff] at read
  obtain ⟨marks, marked, signs, signed, whole, parsed, shallow⟩ := read
  split at shallow
  · exact ⟨marks, signs, whole, marked, signed, parsed, Option.some.inj shallow⟩
  · cases shallow

/-- The start of the text, with brackets opened behind it. -/
theorem ofSigns?_start (signs : List Sign) :
    ofSigns? ([.start, .opening .plain] ++ signs) { folded := false } [] =
      ofSigns? signs { folded := false }
        [(.plain, { folded := false, parts := [⟨.start, 0⟩] })] := rfl

/-- The wrapped text of a pattern that is well formed on its own. -/
theorem read?_wrapped {text : List Char} {p whole : Pattern} (alone : read? text = some p)
    (read : read? ("^(?:".toList ++ text ++ [')']) = some whole) :
    whole = oneOf [inOrder [start, p]] := by
  obtain ⟨marks, signs, inside, marked, signed, parsed, rfl⟩ := exists_of_read? alone
  obtain ⟨marks', signs', whole', marked', signed', parsed', rfl⟩ := exists_of_read? read
  have wrapped_marks : marks' = [.plain '^', .plain '(', .plain '?', .plain ':'] ++
      (marks ++ [.plain ')']) := by
    simpa [marks?, marks?_append marked [')']] using marked'.symm
  have wrapped_signs : signs' = [.start, .opening .plain] ++ (signs ++ [.closing]) := by
    subst wrapped_marks
    simpa [signs?, (signs?_append_closing []).1 marks signs signed] using signed'.symm
  subst wrapped_signs
  obtain ⟨last, rfl, goes_on⟩ := ofSigns?_append parsed
  rw [ofSigns?_start] at parsed'
  have closed := (goes_on [.closing] [_]).symm.trans parsed'
  cases closed
  rfl

/-- A repetition needs something that it repeats. -/
theorem no_question_of_parsed {marks : List Mark} {signs : List Sign} {whole : Part}
    (signed : signs? marks = some signs)
    (parsed : ofSigns? signs { folded := false } [] = some whole) (rest : List Mark) :
    marks ≠ .plain '?' :: rest := by
  rintro rfl
  obtain ⟨greedy, others, rfl⟩ :
      ∃ greedy others, signs = .repetition .atMostOnce greedy :: others := by
    by_cases again : ∃ more, rest = .plain '?' :: more
    · obtain ⟨more, rfl⟩ := again
      rw [signs?] at signed
      obtain ⟨others, -, rfl⟩ := Option.map_eq_some_iff.mp signed
      exact ⟨false, others, rfl⟩
    · rw [signs?] at signed
      · obtain ⟨others, -, rfl⟩ := Option.map_eq_some_iff.mp signed
        exact ⟨true, others, rfl⟩
      · exact fun more same => again ⟨more, same⟩
  cases parsed

/-- The wrapped text of two patterns that are well formed on their own, where the first one closes
the brackets and the second one opens others. -/
theorem read?_alternatives {text text' : List Char} {p p' whole : Pattern}
    (alone : read? text = some p) (alone' : read? text' = some p')
    (read : read? ("^(?:".toList ++ text ++ ")|(".toList ++ text' ++ [')']) = some whole) :
    whole = oneOf [inOrder [start, p], inOrder [group p']] := by
  obtain ⟨marks, signs, inside, marked, signed, parsed, rfl⟩ := exists_of_read? alone
  obtain ⟨marks', signs', inside', marked', signed', parsed', rfl⟩ := exists_of_read? alone'
  obtain ⟨all_marks, all_signs, whole', marked_all, signed_all, parsed_all, rfl⟩ :=
    exists_of_read? read
  have wrapped_marks : all_marks = [.plain '^', .plain '(', .plain '?', .plain ':'] ++
      (marks ++ .plain ')' :: .plain '|' :: .plain '(' :: (marks' ++ [.plain ')'])) := by
    simpa [marks?, marks?_append marked, marks?_append marked'] using marked_all.symm
  have group_signs : signs? (.plain '(' :: (marks' ++ [.plain ')'])) =
      some (.opening .group :: (signs' ++ [.closing])) := by
    have no_question (rest : List Mark) (begins : marks' ++ [.plain ')'] = .plain '?' :: rest) :
        False := by
      obtain ⟨rest', split⟩ := exists_of_append_closing [.plain '?'] (by decide) begins
      exact no_question_of_parsed signed' parsed' rest' split
    have inside := (signs?_append_closing []).1 marks' signs' signed'
    simp_all [signs?]
  have wrapped_signs : all_signs = [.start, .opening .plain] ++
      (signs ++ .closing :: .bar :: .opening .group :: (signs' ++ [.closing])) := by
    subst wrapped_marks
    have first := (signs?_append_closing (.plain '|' :: .plain '(' :: (marks' ++ [.plain ')']))).1
      marks signs signed
    simpa [signs?, first, group_signs] using signed_all.symm
  subst wrapped_signs
  obtain ⟨last, rfl, goes_on⟩ := ofSigns?_append parsed
  obtain ⟨last', rfl, goes_on'⟩ := ofSigns?_append parsed'
  rw [ofSigns?_start] at parsed_all
  have first := (goes_on _ [_]).symm.trans parsed_all
  have second := (goes_on' [.closing] [_]).symm.trans first
  cases second
  rfl

end MathShorthand.Pattern
