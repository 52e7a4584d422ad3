import MathShorthand.Proofs.Token.Boundary

/-!
# Blanks as boundaries

In a table such as the standard one (`PartedByBlanks`) no operator reaches across a blank. So the
pieces before a blank are the same whatever follows it (`piecesOf_append_blank`), and the pieces of a
name with blanks in it are the same without what stood behind it (`EachJustified.front`).
-/

namespace MathShorthand

open Text (isBlank)

/-- The operator is written in words without blanks, or it is for a blank and takes any one of
them. -/
def Operator.SpelledIn (op : Operator Pattern) (words : List (List CharSet)) : Prop :=
  (∀ w ∈ words, w ≠ []) ∧ op.kind ≠ .name ∧
    if op.kind = .blank then op.breaksNames = true ∧ words = [[.blank]]
    else ∀ w ∈ words, ∀ set ∈ w, set.inter .blank = .empty

instance (op : Operator Pattern) (words : List (List CharSet)) : Decidable (op.SpelledIn words) :=
  inferInstanceAs (Decidable (_ ∧ _ ∧ _))

variable {R : Type} [Regex R]

namespace OperatorTable

/-- Blanks are pieces of their own, and all other operators keep within the text between them. -/
structure PartedByBlanks (table : OperatorTable R) : Prop where
  no_name : ∀ op ∈ table.operators, op.kind ≠ .name
  /-- What an operator takes is the same when some of the text behind it is cut off. -/
  front : ∀ op ∈ table.operators, ∀ u v piece, op.recognize (u ++ v) = some piece → piece <+: u →
    op.recognize u = some piece
  front_none : ∀ op ∈ table.operators, ∀ u v, op.recognize (u ++ v) = none → op.recognize u = none
  solid : ∀ op ∈ table.operators, op.kind ≠ .blank → ∀ text piece,
    op.recognize text = some piece → ∀ c ∈ piece, isBlank c = false
  blank : ∀ op ∈ table.operators, op.kind = .blank → op.breaksNames = true ∧
    ∀ c text, op.recognize (c :: text) = if isBlank c then some [c] else none
  some_blank : ∃ op ∈ table.operators, op.kind = .blank

theorem settled_of_spelledIn {table : OperatorTable Pattern}
    (spelled : ∀ op ∈ table.operators, ∃ words ∈ op.words?, op.SpelledIn words) : table.Settled := by
  apply settled_of_words
  intro op mem
  obtain ⟨words, known, some_text, -⟩ := spelled op mem
  exact ⟨words, known, some_text⟩

theorem partedByBlanks_of_words {table : OperatorTable Pattern}
    (spelled : ∀ op ∈ table.operators, ∃ words ∈ op.words?, op.SpelledIn words)
    (some_blank : ∃ op ∈ table.operators, op.kind = .blank) : table.PartedByBlanks where
  no_name op mem := by
    obtain ⟨words, -, -, no_name, -⟩ := spelled op mem
    exact no_name
  front := (settled_of_spelledIn spelled).front
  front_none := (settled_of_spelledIn spelled).front_none
  solid op mem not_blank text piece recognized c mem_piece := by
    obtain ⟨words, known, some_text, -, disjoint⟩ := spelled op mem
    rw [if_neg not_blank] at disjoint
    obtain ⟨w, mem_words, -, sets⟩ := op.exists_word_of_recognize known some_text recognized
    obtain ⟨set, mem_w, holds⟩ := sets c mem_piece
    refine Bool.eq_false_iff.mpr fun blank => ?_
    have both := (CharSet.contains_inter set .blank c).mpr ⟨holds, blank⟩
    rw [disjoint w mem_words set mem_w] at both
    cases both
  blank op mem kind := by
    obtain ⟨words, known, some_text, -, all_blanks⟩ := spelled op mem
    rw [if_pos kind] at all_blanks
    obtain ⟨breaks, rfl⟩ := all_blanks
    refine ⟨breaks, fun c text => ?_⟩
    have begun : begins [.blank] (c :: text) = isBlank c := Bool.and_true _
    rw [op.recognize_of_words? known some_text, List.find?_singleton, begun]
    split <;> rfl
  some_blank := some_blank

theorem partedByBlanks_standard : standard.PartedByBlanks :=
  partedByBlanks_of_words (by decide +kernel) (by decide +kernel)

namespace PartedByBlanks

variable {table : OperatorTable R} (parted : table.PartedByBlanks) {u v piece : List Char} {b : Char}
  {kind : Kind} {op : Operator R}
include parted

/-! ### Text without what comes after it -/

theorem breaks_of_front (breaks : table.Breaks u) (v : List Char) : table.Breaks (u ++ v) := by
  obtain ⟨op, mem, breaking, found⟩ := breaks
  exact ⟨op, mem, breaking, fun missed => found (parted.front_none op mem u v missed)⟩

theorem noneTakes_front (free : table.NoneTakes (u ++ v)) : table.NoneTakes u := by
  intro op mem
  exact parted.front_none op mem u v (free op mem)

theorem firstTakes_front (first : table.FirstTakes (u ++ v) kind piece) (fits : piece <+: u) :
    table.FirstTakes u kind piece := by
  apply first.congr
  · intro op mem recognized
    exact parted.front op mem u v piece recognized fits
  · intro op mem missed
    exact parted.front_none op mem u v missed

/-! ### A blank -/

theorem breaks_of_blank (blank : isBlank b = true) (v : List Char) : table.Breaks (b :: v) := by
  obtain ⟨op, mem, for_blank⟩ := parted.some_blank
  obtain ⟨breaks, takes⟩ := parted.blank op mem for_blank
  refine ⟨op, mem, breaks, ?_⟩
  rw [takes, if_pos blank]
  exact Option.some_ne_none _

variable [prefixes : table.TakesPrefixes]

theorem exists_blank_of_recognize {text : List Char} (mem : op ∈ table.operators)
    (for_blank : op.kind = .blank) (recognized : op.recognize text = some piece) :
    ∃ c, isBlank c = true ∧ piece = [c] := by
  obtain ⟨some_piece, v, rfl⟩ := prefixes.prefix_of_recognize op mem _ _ recognized
  obtain ⟨c, more, rfl⟩ := List.exists_cons_of_ne_nil some_piece
  rw [List.cons_append, (parted.blank op mem for_blank).2] at recognized
  split at recognized
  · next is_blank =>
    cases recognized
    exact ⟨c, is_blank, rfl⟩
  · cases recognized

theorem kind_of_recognize_blank (mem : op ∈ table.operators) (blank : isBlank b = true)
    (recognized : op.recognize (b :: v) = some piece) : op.kind = .blank ∧ piece = [b] := by
  by_cases for_blank : op.kind = .blank
  · rw [(parted.blank op mem for_blank).2, if_pos blank] at recognized
    exact ⟨for_blank, (Option.some.inj recognized).symm⟩
  · obtain ⟨some_piece, begun⟩ := prefixes.prefix_of_recognize op mem _ _ recognized
    obtain ⟨c, more, rfl⟩ := List.exists_cons_of_ne_nil some_piece
    obtain ⟨rfl, -⟩ := List.cons_prefix_cons.mp begun
    rw [parted.solid op mem for_blank _ _ recognized c List.mem_cons_self] at blank
    cases blank

theorem firstTakes_blank (blank : isBlank b = true) (v : List Char) :
    table.FirstTakes (b :: v) .blank [b] := by
  cases found : table.find? (b :: v) with
  | none =>
    obtain ⟨op, mem, -, taken⟩ := parted.breaks_of_blank blank v
    exact absurd (find?_eq_none_iff.mp found op mem) taken
  | some taken =>
    have first : table.FirstTakes (b :: v) taken.1 taken.2 := find?_eq_some_iff.mp found
    obtain ⟨op, mem, same, recognized⟩ := first.exists_mem
    obtain ⟨for_blank, piece⟩ := parted.kind_of_recognize_blank mem blank recognized
    rwa [← same, for_blank, piece] at first

theorem boundary (blank : isBlank b = true) : table.Boundary b .blank where
  settled := ⟨parted.front, parted.front_none⟩
  alone op mem text piece recognized taken := by
    by_cases for_blank : op.kind = .blank
    · obtain ⟨c, -, rfl⟩ := parted.exists_blank_of_recognize mem for_blank recognized
      rw [List.mem_singleton.mp taken]
    · have solid := parted.solid op mem for_blank _ _ recognized b taken
      rw [solid] at blank
      cases blank
  taken := parted.firstTakes_blank blank []
  breaks := parted.breaks_of_blank blank []

end PartedByBlanks

end OperatorTable

variable {table : OperatorTable R} (parted : table.PartedByBlanks) {t : Token} {ts us : List Token}
  {rest u v : List Char} {b : Char}
include parted

/-! ### Pieces without what comes after them -/

theorem Justified.name_cases (justified : Justified table t rest) (name : t.kind = .name) :
    table.NoneTakes (t.text.toList ++ rest) ∧ (rest = [] ∨ table.Breaks rest) := by
  cases justified with
  | operator first =>
    obtain ⟨op, mem, same, -⟩ := first.exists_mem
    exact absurd (same.trans name) (parted.no_name op mem)
  | name free goes_on ends =>
    rw [String.toList_ofList]
    exact ⟨free, ends⟩

theorem Justified.front (justified : Justified table t (u ++ v))
    (ends : t.kind = .name → u = [] ∨ table.Breaks u) : Justified table t u := by
  cases justified with
  | operator first =>
    apply Justified.operator
    rw [← List.append_assoc] at first
    exact parted.firstTakes_front first (List.prefix_append _ u)
  | name free goes_on =>
    apply Justified.name _ _ (ends rfl)
    · rw [← List.append_assoc] at free
      exact parted.noneTakes_front free
    · intro front back split some_back breaks
      have breaks := parted.breaks_of_front breaks v
      rw [List.append_assoc] at breaks
      exact goes_on front back split some_back breaks

theorem not_name_of_breaks (justified : Justified table t rest)
    (breaks : table.Breaks (t.text.toList ++ rest)) : t.kind ≠ .name := by
  intro name
  obtain ⟨op, mem, -, found⟩ := breaks
  exact found ((justified.name_cases parted name).1 op mem)

theorem EachJustified.breaks_of_name {u : Token} (justified : EachJustified table (t :: u :: ts))
    (name : t.kind = .name) : table.Breaks (written (u :: ts)) := by
  obtain ⟨first, second, -⟩ := justified
  obtain ⟨-, ends⟩ := first.name_cases parted name
  apply ends.resolve_left
  exact List.append_ne_nil_of_left_ne_nil (Pieces.toList_ne_nil_of_justified second) _

variable [table.TakesPrefixes]

theorem Justified.exists_blank (justified : Justified table t rest) (blank : t.kind = .blank) :
    ∃ c, isBlank c = true ∧ t.text.toList = [c] := by
  cases justified with
  | operator first =>
    obtain ⟨op, mem, same, recognized⟩ := first.exists_mem
    exact parted.exists_blank_of_recognize mem (same.trans blank) recognized
  | name => cases blank

theorem Justified.breaks (justified : Justified table t rest) (blank : t.kind = .blank)
    (v : List Char) : table.Breaks (t.text.toList ++ v) := by
  obtain ⟨c, is_blank, text⟩ := justified.exists_blank parted blank
  rw [text]
  exact parted.breaks_of_blank is_blank _

/-- A name cannot follow a name directly, so what ends a name among names and blanks is a blank. -/
theorem EachJustified.front (justified : EachJustified table (ts ++ us))
    (run : ∀ t ∈ ts, t.kind = .name ∨ t.kind = .blank) : EachJustified table ts := by
  induction ts with
  | nil => trivial
  | cons t ts ih =>
    have run_others := (List.forall_mem_cons.mp run).2
    have first : Justified table t (written (ts ++ us)) := justified.1
    refine ⟨?_, ih justified.2 run_others⟩
    rw [written_append] at first
    apply first.front parted
    intro name
    cases ts with
    | nil => exact .inl rfl
    | cons y ts =>
      have second : Justified table y (written (ts ++ us)) := justified.2.1
      have breaks := justified.breaks_of_name parted name
      have not_name := not_name_of_breaks parted second breaks
      have blank := (run_others y List.mem_cons_self).resolve_left not_name
      exact .inr (second.breaks parted blank (written ts))

/-! ### Pieces on both sides -/

/-- A blank parts a text: the pieces in front of it and behind it are those of the two parts. -/
theorem piecesOf_append_blank (blank : isBlank b = true) (u v : List Char) :
    piecesOf table (u ++ b :: v) =
      piecesOf table u ++ ⟨.blank, String.ofList [b]⟩ :: piecesOf table v :=
  piecesOf_append_boundary (parted.boundary blank) u v

end MathShorthand
