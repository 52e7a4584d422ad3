import MathShorthand.Proofs.Token.Respacing

/-!
# The texts of names

A name is made of pieces of its text that are names or blanks. A boundary is a piece of its own and
neither of the two, so it is in no name.
-/

namespace MathShorthand

open OperatorTable

variable {R : Type} [Regex R] {table : OperatorTable R} {c : Char} {k : Kind} {t : Token} {ts : List Token}
  {rest : List Char}

theorem OperatorTable.FirstTakes.unique {text piece piece' : List Char} {kind kind' : Kind}
    (first : table.FirstTakes text kind piece) (first' : table.FirstTakes text kind' piece') :
    kind = kind' ∧ piece = piece' := by
  have same := (find?_eq_some_iff.mpr first).symm.trans (find?_eq_some_iff.mpr first')
  simpa using same

theorem Justified.eq_of_mem [table.TakesPrefixes] (boundary : table.Boundary c k) (justified : Justified table t rest)
    (mem : c ∈ t.text.toList) : t = ⟨k, String.ofList [c]⟩ := by
  cases justified with
  | operator first =>
    obtain ⟨op, listed, -, recognized⟩ := first.exists_mem
    have alone := boundary.alone op listed _ _ recognized mem
    rw [alone] at first
    obtain ⟨kind, -⟩ := first.unique (boundary.firstTakes_cons rest)
    rw [← kind, ← alone, String.ofList_toList]
  | @name d more rest free goes_on ends =>
    rw [String.toList_ofList] at mem
    rcases List.mem_cons.mp mem with rfl | later
    · obtain ⟨op, listed, -, recognized⟩ := (boundary.firstTakes_cons (more ++ rest)).exists_mem
      have missed := free op listed
      rw [List.cons_append, recognized] at missed
      cases missed
    · obtain ⟨front, back, split⟩ := List.append_of_mem later
      have breaks := boundary.breaks_cons (back ++ rest)
      exact absurd breaks (goes_on front _ split (List.cons_ne_nil _ _))

theorem EachJustified.exists_of_mem (justified : EachJustified table ts) (mem : t ∈ ts) :
    ∃ rest, Justified table t rest := by
  obtain ⟨front, back, rfl⟩ := List.append_of_mem mem
  exact ⟨written back, justified.back.1⟩

theorem exists_span_of_name (mem : t ∈ mergeNames ts) (name : t.kind = .name) :
    ∃ first span, t.text.toList = written (first :: span) ∧
      ∀ p ∈ first :: span, p ∈ ts ∧ p.inRun = true := by
  fun_induction mergeNames ts with
  | case1 => cases mem
  | case2 first ts le blank ih =>
    obtain ⟨first', span, text, parts⟩ := ih mem
    exact ⟨first', span, text, fun p listed =>
      ⟨List.mem_cons_of_mem _ (parts p listed).1, (parts p listed).2⟩⟩
  | case3 first ts le not_blank named ih =>
    rcases List.mem_cons.mp mem with rfl | later
    · refine ⟨first, nameSpan ts, ?_, fun p listed => ?_⟩
      · rw [String.toList_ofList, nameSpan_name named]
      · rw [← nameSpan_name named] at listed
        have begins := nameSpan_prefix (first :: ts)
        exact ⟨begins.subset listed, inRun_of_mem_nameSpan listed⟩
    · obtain ⟨first', span, text, parts⟩ := ih later
      refine ⟨first', span, text, fun p listed => ⟨?_, (parts p listed).2⟩⟩
      exact List.mem_cons_of_mem _ ((List.dropWhile_suffix _).subset (parts p listed).1)
  | case4 first ts le not_blank not_name ih =>
    rcases List.mem_cons.mp mem with rfl | later
    · exact absurd name not_name
    · obtain ⟨first', span, text, parts⟩ := ih later
      exact ⟨first', span, text, fun p listed =>
        ⟨List.mem_cons_of_mem _ (parts p listed).1, (parts p listed).2⟩⟩

theorem mem_written : c ∈ written ts ↔ ∃ t ∈ ts, c ∈ t.text.toList := List.mem_flatMap

/-- A name has some text, all of it is in the text that is read, and no boundary is in it. -/
theorem name_of_tokenize [table.TakesPrefixes] {text : String} (mem : t ∈ tokenize table text)
    (name : t.kind = .name) :
    t.text.toList ≠ [] ∧ (∀ c ∈ t.text.toList, c ∈ text.toList) ∧
      ∀ c k, table.Boundary c k → k ≠ .name → k ≠ .blank → c ∉ t.text.toList := by
  have spelled := written_piecesOf table text.toList
  have justified := eachJustified_piecesOf table text.toList
  rw [tokenize_eq] at mem
  obtain ⟨first, span, same, parts⟩ := exists_span_of_name mem name
  rw [same]
  refine ⟨?_, fun c mem_c => ?_, fun c k boundary not_name not_blank mem_c => ?_⟩
  · obtain ⟨rest, justified_first⟩ :=
      justified.exists_of_mem (parts first List.mem_cons_self).1
    rw [written_cons]
    exact List.append_ne_nil_of_left_ne_nil
      (Pieces.toList_ne_nil_of_justified justified_first) _
  · obtain ⟨p, listed, mem_p⟩ := mem_written.mp mem_c
    rw [← spelled]
    exact mem_written.mpr ⟨p, (parts p listed).1, mem_p⟩
  · obtain ⟨p, listed, mem_p⟩ := mem_written.mp mem_c
    obtain ⟨rest, justified_p⟩ := justified.exists_of_mem (parts p listed).1
    have run := (parts p listed).2
    rw [justified_p.eq_of_mem boundary mem_p, Token.inRun_of_other not_name not_blank] at run
    cases run

end MathShorthand
