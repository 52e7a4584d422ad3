import MathShorthand.Operator.Standard
import MathShorthand.Proofs.Pattern.Words
import MathShorthand.Proofs.Token.Segmentation

/-!
# Boundaries

A character that is an operator by itself and goes into no longer one is a boundary
(`OperatorTable.Boundary`). It parts a text: the pieces in front of it and behind it are those of the
two parts (`piecesOf_append_boundary`).
-/

namespace MathShorthand

variable {R : Type} [Regex R]

namespace OperatorTable

/-- What an operator takes is settled by the text up to there. -/
structure Settled (table : OperatorTable R) : Prop where
  front : ∀ op ∈ table.operators, ∀ u v piece, op.recognize (u ++ v) = some piece → piece <+: u →
    op.recognize u = some piece
  front_none : ∀ op ∈ table.operators, ∀ u v, op.recognize (u ++ v) = none → op.recognize u = none

theorem settled_of_words {table : OperatorTable Pattern}
    (spelled : ∀ op ∈ table.operators, ∃ words ∈ op.words?, ∀ w ∈ words, w ≠ []) :
    table.Settled where
  front op mem u v piece recognized fits := by
    obtain ⟨words, known, some_text⟩ := spelled op mem
    exact op.recognize_front known some_text recognized fits
  front_none op mem u v missed := by
    obtain ⟨words, known, some_text⟩ := spelled op mem
    exact op.recognize_front_eq_none known some_text missed

/-- The character is read as an operator of `kind`, also behind a name, and no operator takes it
together with others. -/
structure Boundary (table : OperatorTable R) (c : Char) (kind : Kind) : Prop where
  settled : table.Settled
  alone : ∀ op ∈ table.operators, ∀ text piece, op.recognize text = some piece → c ∈ piece →
    piece = [c]
  taken : table.FirstTakes [c] kind [c]
  breaks : table.Breaks [c]

/-- The character may only be in words that are no longer than itself. -/
def KeepsApart (table : OperatorTable Pattern) (c : Char) : Prop :=
  ∀ op ∈ table.operators, ∃ words ∈ op.words?, ∀ w ∈ words,
    w ≠ [] ∧ (w.length = 1 ∨ ∀ set ∈ w, set.contains c = false)

instance (table : OperatorTable Pattern) (c : Char) : Decidable (table.KeepsApart c) :=
  inferInstanceAs (Decidable (∀ op ∈ table.operators, ∃ words ∈ op.words?, _))

theorem boundary_of_words {table : OperatorTable Pattern} {c : Char} {kind : Kind}
    (apart : table.KeepsApart c) (found : table.find? [c] = some (kind, [c]))
    (breaking : (table.findBreaking? [c]).isSome = true) : table.Boundary c kind where
  settled := settled_of_words fun op mem => by
    obtain ⟨words, known, spelled⟩ := apart op mem
    exact ⟨words, known, fun w listed => (spelled w listed).1⟩
  alone op mem text piece recognized taken := by
    obtain ⟨words, known, spelled⟩ := apart op mem
    obtain ⟨w, listed, length, sets⟩ :=
      op.exists_word_of_recognize known (fun w listed => (spelled w listed).1) recognized
    rcases (spelled w listed).2 with one | none
    · rw [one] at length
      obtain ⟨d, rfl⟩ := List.length_eq_one_iff.mp length
      rw [List.mem_singleton.mp taken]
    · obtain ⟨set, mem_set, holds⟩ := sets c taken
      rw [none set mem_set] at holds
      cases holds
  taken := find?_eq_some_iff.mp found
  breaks := isSome_findBreaking?_iff.mp breaking

/-- The standard operators that go into no longer one, with their kinds. -/
def standardBoundaries : List (Char × Kind) :=
  [('(', .leftParen), (')', .rightParen), ('+', .plus), ('-', .minus), ('/', .divide),
    ('\\', .escape), (',', .comma), ('^', .super), ('_', .sub), ('@', .hat), ('#', .vector)]

theorem boundary_of_mem {c : Char} {kind : Kind} (listed : (c, kind) ∈ standardBoundaries) :
    standard.Boundary c kind := by
  have checked : ∀ p ∈ standardBoundaries, standard.KeepsApart p.1 ∧
      standard.find? [p.1] = some (p.2, [p.1]) ∧
      (standard.findBreaking? [p.1]).isSome = true := by
    decide +kernel
  obtain ⟨apart, found, breaking⟩ := checked _ listed
  exact boundary_of_words apart found breaking

namespace Boundary

variable {table : OperatorTable R} [prefixes : table.TakesPrefixes] {c : Char} {k : Kind}
  (boundary : table.Boundary c k) {u piece : List Char} {kind : Kind} {op : Operator R}
include boundary

/-! ### Text in front of a boundary -/

theorem prefix_of_recognize (mem : op ∈ table.operators) (some_text : u ≠ []) (v : List Char)
    (recognized : op.recognize (u ++ c :: v) = some piece) : piece <+: u := by
  have begun := (prefixes.prefix_of_recognize op mem _ _ recognized).2
  rcases List.prefix_or_prefix_of_prefix begun (List.prefix_append u (c :: v)) with
    fits | ⟨more, rfl⟩
  · exact fits
  · cases more with
    | nil => exact (List.append_nil u).symm ▸ List.prefix_rfl
    | cons d more =>
      have reaches := (List.prefix_append_right_inj u).mp begun
      obtain ⟨rfl, -⟩ := List.cons_prefix_cons.mp reaches
      -- a piece that reaches the boundary would be that character alone, but it starts before it
      have takes : d ∈ u ++ d :: more := List.mem_append_right u List.mem_cons_self
      have one := congrArg List.length (boundary.alone op mem _ _ recognized takes)
      have pos := List.length_pos_iff.mpr some_text
      rw [List.length_append, List.length_cons, List.length_singleton] at one
      omega

theorem recognize_append (mem : op ∈ table.operators) (some_text : u ≠ []) (v : List Char) :
    op.recognize (u ++ c :: v) = op.recognize u := by
  cases recognized : op.recognize (u ++ c :: v) with
  | none => exact (boundary.settled.front_none op mem u _ recognized).symm
  | some piece =>
    have fits := boundary.prefix_of_recognize mem some_text v recognized
    exact (boundary.settled.front op mem u _ piece recognized fits).symm

theorem firstTakes_append (some_text : u ≠ []) (first : table.FirstTakes u kind piece)
    (v : List Char) : table.FirstTakes (u ++ c :: v) kind piece := by
  apply first.congr
  · intro op mem recognized
    rw [boundary.recognize_append mem some_text, recognized]
  · intro op mem missed
    rw [boundary.recognize_append mem some_text, missed]

theorem noneTakes_append (some_text : u ≠ []) (free : table.NoneTakes u) (v : List Char) :
    table.NoneTakes (u ++ c :: v) := by
  intro op mem
  rw [boundary.recognize_append mem some_text, free op mem]

theorem breaks_append_iff (some_text : u ≠ []) (v : List Char) :
    table.Breaks (u ++ c :: v) ↔ table.Breaks u := by
  unfold Breaks
  refine exists_congr fun op => and_congr_right fun mem => ?_
  rw [boundary.recognize_append mem some_text]

/-! ### The boundary -/

/-- What follows a boundary is not looked at. -/
theorem recognize_cons (mem : op ∈ table.operators) (v : List Char) :
    op.recognize (c :: v) = op.recognize [c] := by
  cases recognized : op.recognize (c :: v) with
  | none => exact (boundary.settled.front_none op mem [c] v recognized).symm
  | some piece =>
    obtain ⟨some_piece, begun⟩ := prefixes.prefix_of_recognize op mem _ _ recognized
    obtain ⟨d, more, rfl⟩ := List.exists_cons_of_ne_nil some_piece
    obtain ⟨rfl, -⟩ := List.cons_prefix_cons.mp begun
    have alone := boundary.alone op mem _ _ recognized List.mem_cons_self
    rw [alone] at recognized ⊢
    exact (boundary.settled.front op mem [d] v [d] recognized List.prefix_rfl).symm

theorem firstTakes_cons (v : List Char) : table.FirstTakes (c :: v) k [c] := by
  apply boundary.taken.congr
  · intro op mem recognized
    rw [boundary.recognize_cons mem, recognized]
  · intro op mem missed
    rw [boundary.recognize_cons mem, missed]

theorem breaks_cons (v : List Char) : table.Breaks (c :: v) := by
  obtain ⟨op, mem, breaking, found⟩ := boundary.breaks
  refine ⟨op, mem, breaking, ?_⟩
  rwa [boundary.recognize_cons mem]

end Boundary

end OperatorTable

/-! ### Pieces on both sides -/

variable {table : OperatorTable R} [table.TakesPrefixes] {c : Char} {k : Kind}
  (boundary : table.Boundary c k) {t : Token} {ts us : List Token} {rest : List Char}
include boundary

theorem Justified.append_boundary (justified : Justified table t rest) (v : List Char) :
    Justified table t (rest ++ c :: v) := by
  have some_text : t.text.toList ++ rest ≠ [] :=
    List.append_ne_nil_of_left_ne_nil (Pieces.toList_ne_nil_of_justified justified) rest
  cases justified with
  | operator first =>
    apply Justified.operator
    rw [← List.append_assoc]
    exact boundary.firstTakes_append some_text first v
  | @name d more rest free goes_on ends =>
    apply Justified.name
    · rw [← List.append_assoc]
      exact boundary.noneTakes_append (by simp) free v
    · intro front back split some_back
      rw [← List.append_assoc, boundary.breaks_append_iff (by simp [some_back])]
      exact goes_on front back split some_back
    · by_cases some_rest : rest = []
      · rw [some_rest]
        exact .inr (boundary.breaks_cons v)
      · rw [boundary.breaks_append_iff some_rest]
        exact .inr (ends.resolve_left some_rest)

theorem EachJustified.append_boundary (before : EachJustified table ts)
    (behind : EachJustified table us) :
    EachJustified table (ts ++ ⟨k, String.ofList [c]⟩ :: us) := by
  induction ts with
  | nil =>
    refine ⟨Justified.operator ?_, behind⟩
    rw [String.toList_ofList]
    exact boundary.firstTakes_cons _
  | cons t ts ih =>
    obtain ⟨first, others⟩ := before
    have goes_on := first.append_boundary boundary (written us)
    rw [List.cons_append]
    refine ⟨?_, ih others⟩
    rw [written_append, written_cons, String.toList_ofList]
    exact goes_on

/-- A boundary parts a text: the pieces in front of it and behind it are those of the two parts. -/
theorem piecesOf_append_boundary (u v : List Char) :
    piecesOf table (u ++ c :: v) =
      piecesOf table u ++ ⟨k, String.ofList [c]⟩ :: piecesOf table v := by
  symm
  rw [← segments_iff]
  refine ⟨?_, (eachJustified_piecesOf table u).append_boundary boundary (eachJustified_piecesOf table v)⟩
  rw [written_append, written_cons, written_piecesOf, written_piecesOf, String.toList_ofList]
  rfl

end MathShorthand
