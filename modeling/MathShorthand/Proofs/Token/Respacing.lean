import MathShorthand.Proofs.Token.Merge
import MathShorthand.Proofs.Token.Parted

/-!
# Tokens with blanks between them

The text of a token is read as that token alone, and tokens that are written with blanks between
them are read as those tokens again. Both rest on blanks being boundaries (`PartedByBlanks`): the
pieces on the two sides of a blank are read apart, and merging joins them only if they are names.
-/

namespace MathShorthand

open Text (isBlank)

/-! ### Merging across a blank -/

section

variable {t : Token} {ts us : List Token}

theorem inRun_of_mem_nameSpan (mem : t ∈ nameSpan ts) : t.inRun = true :=
  List.mem_takeWhile_imp ((List.rdropWhile_prefix _ _).subset mem)

theorem nameSpan_nameSpan (ts : List Token) : nameSpan (nameSpan ts) = nameSpan ts := by
  induction ts with
  | nil => rfl
  | cons t ts ih =>
    rcases t.inRun_cases with name | blank | other
    · rw [nameSpan_name name, nameSpan_name name, ih]
    · rw [nameSpan_blank blank]
      by_cases no_name : nameSpan ts = []
      · rw [if_pos no_name]
        rfl
      · rw [if_neg no_name, nameSpan_blank blank, ih, if_neg no_name]
    · rw [nameSpan_other other]
      rfl

/-- A span is made of names and blanks up to a name, so it is the span of itself. -/
theorem mergeNames_nameSpan (name : t.kind = .name) :
    mergeNames (nameSpan (t :: ts)) =
      [⟨.name, String.ofList (written (nameSpan (t :: ts)))⟩] := by
  have idem := nameSpan_nameSpan (t :: ts)
  have no_more : afterRun (nameSpan ts) = [] :=
    List.dropWhile_eq_nil_iff.mpr fun t mem => inRun_of_mem_nameSpan mem
  rw [nameSpan_name name] at idem ⊢
  rw [mergeNames_name name, idem, no_more, mergeNames_nil]

/-- What is put behind some tokens does not make their span longer if their run has ended, or if it
brings no name. -/
theorem nameSpan_append (stays : afterRun ts ≠ [] ∨ nameSpan us = []) :
    nameSpan (ts ++ us) = nameSpan ts := by
  induction ts with
  | nil => exact stays.resolve_left fun more => more rfl
  | cons t ts ih =>
    rw [List.cons_append]
    rcases t.inRun_cases with name | blank | other
    · rw [afterRun_cons (Token.inRun_of_name name)] at stays
      rw [nameSpan_name name, nameSpan_name name, ih stays]
    · rw [afterRun_cons (Token.inRun_of_blank blank)] at stays
      rw [nameSpan_blank blank, nameSpan_blank blank, ih stays]
    · rw [nameSpan_other other, nameSpan_other other]

theorem afterRun_append (ts us : List Token) :
    afterRun (ts ++ us) = if afterRun ts = [] then afterRun us else afterRun ts ++ us := by
  unfold afterRun
  rw [List.dropWhile_append]
  simp only [List.isEmpty_iff]

theorem nameSpan_eq_nil (no_name : ∀ c ∈ (mergeNames ts).head?, c.kind ≠ .name) :
    nameSpan ts = [] := by
  induction ts with
  | nil => rfl
  | cons t ts ih =>
    rcases t.inRun_cases with name | blank | other
    · rw [mergeNames_name name] at no_name
      exact absurd rfl (no_name _ rfl)
    · rw [mergeNames_blank blank] at no_name
      rw [nameSpan_blank blank, if_pos (ih no_name)]
    · exact nameSpan_other other

theorem mergeNames_afterRun (no_name : nameSpan ts = []) :
    mergeNames (afterRun ts) = mergeNames ts := by
  induction ts with
  | nil => rfl
  | cons t ts ih =>
    rcases t.inRun_cases with name | blank | other
    · rw [nameSpan_name name] at no_name
      cases no_name
    · rw [afterRun_cons (Token.inRun_of_blank blank), mergeNames_blank blank]
      refine ih ?_
      rw [nameSpan_blank blank] at no_name
      by_contra some_name
      rw [if_neg some_name] at no_name
      cases no_name
    · rw [afterRun_other other]

/-- Merging goes across a blank only from a name to a name. -/
theorem mergeNames_append_blank (blank : t.kind = .blank)
    (apart : ∀ a ∈ (mergeNames ts).getLast?, ∀ c ∈ (mergeNames us).head?, a.Apart c) :
    mergeNames (ts ++ t :: us) = mergeNames ts ++ mergeNames us := by
  fun_induction mergeNames ts with
  | case1 => exact mergeNames_blank blank
  | case2 first ts le first_blank ih =>
    rw [List.cons_append, mergeNames_blank first_blank, ih apart]
  | case3 first ts le not_blank name ih =>
    rw [List.cons_append, mergeNames_name name, ← List.cons_append, afterRun_append]
    by_cases ended : afterRun ts = []
    · -- the name that is merged last may still go on behind the blank
      rw [ended, mergeNames_nil] at apart ⊢
      have no_name : nameSpan us = [] := by
        apply nameSpan_eq_nil
        intro c head named
        exact apart _ rfl c head ⟨rfl, named⟩
      have no_name_behind : nameSpan (t :: us) = [] := by
        rw [nameSpan_blank blank, if_pos no_name]
      rw [nameSpan_append (.inr no_name_behind), if_pos rfl, afterRun_cons (Token.inRun_of_blank blank),
        mergeNames_afterRun no_name]
      rfl
    · have stays : afterRun (first :: ts) ≠ [] := by
        rwa [afterRun_cons (Token.inRun_of_name name)]
      rw [nameSpan_append (.inl stays), if_neg ended, ih, List.cons_append]
      intro a last
      refine apart a ?_
      rw [List.getLast?_cons, last]
      rfl
  | case4 first ts le not_blank not_name ih =>
    have other : first.inRun = false := Token.inRun_of_other not_name not_blank
    rw [List.cons_append, mergeNames_other other, List.cons_append, ih]
    intro a last
    refine apart a ?_
    rw [List.getLast?_cons, last]
    rfl

/-- Merging goes across no other token at all. -/
theorem mergeNames_append_other (other : t.inRun = false) :
    mergeNames (ts ++ t :: us) = mergeNames ts ++ t :: mergeNames us := by
  fun_induction mergeNames ts with
  | case1 => exact mergeNames_other other
  | case2 first ts le first_blank ih => rw [List.cons_append, mergeNames_blank first_blank, ih]
  | case3 first ts le not_blank name ih =>
    have no_name : nameSpan (t :: us) = [] := nameSpan_other other
    rw [List.cons_append, mergeNames_name name, ← List.cons_append, nameSpan_append (.inr no_name),
      afterRun_append]
    by_cases ended : afterRun ts = []
    · rw [if_pos ended, ended, mergeNames_nil, afterRun_other other, mergeNames_other other]
      rfl
    · rw [if_neg ended, ih, List.cons_append]
  | case4 first ts le not_blank not_name ih =>
    have other : first.inRun = false := Token.inRun_of_other not_name not_blank
    rw [List.cons_append, mergeNames_other other, List.cons_append, ih]

end

/-! ### The tokens of a text with a blank in it -/

variable {R : Type} [Regex R] {table : OperatorTable R} {t : Token} {ts us : List Token} {b : Char}

theorem EachJustified.back (justified : EachJustified table (ts ++ us)) : EachJustified table us := by
  induction ts with
  | nil => exact justified
  | cons t ts ih => exact ih justified.2

variable [table.TakesPrefixes]

theorem piecesOf_nil (table : OperatorTable R) [table.TakesPrefixes] : piecesOf table [] = [] :=
  have nothing : Segments table [] [] := ⟨rfl, trivial⟩
  (segments_iff.mp nothing).symm

/-- Unless there are names on both sides of it, a blank parts the tokens of a text. -/
theorem tokens_append_blank (parted : table.PartedByBlanks) (blank : isBlank b = true)
    {u v : List Char}
    (apart : ∀ a ∈ (mergeNames (piecesOf table u)).getLast?,
      ∀ c ∈ (mergeNames (piecesOf table v)).head?, a.Apart c) :
    mergeNames (piecesOf table (u ++ b :: v)) =
      mergeNames (piecesOf table u) ++ mergeNames (piecesOf table v) := by
  rw [piecesOf_append_blank parted blank]
  exact mergeNames_append_blank rfl apart

theorem tokens_blank_cons (parted : table.PartedByBlanks) (blank : isBlank b = true)
    (v : List Char) :
    mergeNames (piecesOf table (b :: v)) = mergeNames (piecesOf table v) := by
  have parts := tokens_append_blank parted blank (u := []) (v := v)
  rw [piecesOf_nil, mergeNames_nil] at parts
  exact parts nofun

theorem tokens_blanks_append (parted : table.PartedByBlanks) {gap : List Char}
    (blank : ∀ c ∈ gap, isBlank c = true) (v : List Char) :
    mergeNames (piecesOf table (gap ++ v)) = mergeNames (piecesOf table v) := by
  induction gap with
  | nil => rfl
  | cons b gap ih =>
    obtain ⟨first, others⟩ := List.forall_mem_cons.mp blank
    rw [List.cons_append, tokens_blank_cons parted first, ih others]

/-! ### The text of a token -/

theorem piecesOf_written (justified : EachJustified table ts) : piecesOf table (written ts) = ts :=
  (segments_iff.mp ⟨rfl, justified⟩).symm

/-- Each token comes from pieces that are read again from its text alone. -/
theorem tokens_of_mem_mergeNames (parted : table.PartedByBlanks)
    (justified : EachJustified table ts) :
    ∀ t ∈ mergeNames ts, mergeNames (piecesOf table t.text.toList) = [t] := by
  fun_induction mergeNames ts with
  | case1 => simp
  | case2 first ts le blank ih => exact ih justified.2
  | case3 first ts le not_blank name ih =>
    obtain ⟨behind, split⟩ := nameSpan_prefix (first :: ts)
    obtain ⟨run, after⟩ := List.dropWhile_suffix Token.inRun (l := ts)
    have span_justified : EachJustified table (nameSpan (first :: ts)) := by
      rw [← split] at justified
      exact justified.front parted fun t mem => Token.inRun_eq_true (inRun_of_mem_nameSpan mem)
    have after_justified : EachJustified table (afterRun ts) := by
      have others := justified.2
      rw [← after] at others
      exact others.back
    refine List.forall_mem_cons.mpr ⟨?_, ih after_justified⟩
    rw [String.toList_ofList, piecesOf_written span_justified, mergeNames_nameSpan name]
  | case4 first ts le not_blank not_name ih =>
    have other : first.inRun = false := Token.inRun_of_other not_name not_blank
    have alone : Justified table first (written []) := by
      obtain ⟨here, -⟩ := justified
      exact here.front parted fun name => absurd name not_name
    have pieces : piecesOf table (written [first]) = [first] :=
      piecesOf_written ⟨alone, trivial⟩
    rw [written_cons, written_nil, List.append_nil] at pieces
    refine List.forall_mem_cons.mpr ⟨?_, ih justified.2⟩
    rw [pieces, mergeNames_other other, mergeNames_nil]

/-! ### Tokens with gaps -/

/-- Blanks, or nothing. -/
structure Gap where
  text : String
  all_blank : text.toList.all isBlank = true

theorem Gap.blank (gap : Gap) : ∀ c ∈ gap.text.toList, isBlank c = true :=
  List.all_eq_true.mp gap.all_blank

/-- The texts of some tokens, each with the gap behind it, and the gap `lead` in front. -/
def spaced (lead : Gap) : List (Token × Gap) → String
  | [] => lead.text
  | (t, gap) :: parts => lead.text ++ t.text ++ spaced gap parts

theorem toList_spaced_cons (lead gap : Gap) (t : Token) (parts : List (Token × Gap)) :
    (spaced lead ((t, gap) :: parts)).toList =
      lead.text.toList ++ (t.text.toList ++ (spaced gap parts).toList) := by
  rw [spaced, String.toList_append, String.toList_append, List.append_assoc]

theorem exists_blank_cons_spaced {gap : Gap} (some_gap : gap.text ≠ "")
    (parts : List (Token × Gap)) :
    ∃ b w, isBlank b = true ∧ (spaced gap parts).toList = b :: w := by
  obtain ⟨b, g, gap_text⟩ := List.exists_cons_of_ne_nil (mt String.toList_eq_nil_iff.mp some_gap)
  have blank : isBlank b = true := gap.blank b (gap_text ▸ List.mem_cons_self)
  cases parts with
  | nil => exact ⟨b, g, blank, gap_text⟩
  | cons part parts =>
    rw [toList_spaced_cons, gap_text, List.cons_append]
    exact ⟨b, _, blank, rfl⟩

theorem forall_mem_dropLast_cons {α : Type} {P : α → Prop} {a : α} {l : List α}
    (all : ∀ x ∈ (a :: l).dropLast, P x) : (l ≠ [] → P a) ∧ ∀ x ∈ l.dropLast, P x := by
  cases l with
  | nil => exact ⟨fun more => absurd rfl more, nofun⟩
  | cons b l =>
    rw [List.dropLast_cons_of_ne_nil (List.cons_ne_nil b l)] at all
    obtain ⟨first, others⟩ := List.forall_mem_cons.mp all
    exact ⟨fun _ => first, others⟩

theorem tokenize_spaced (parted : table.PartedByBlanks) (lead : Gap)
    {parts : List (Token × Gap)} (alone : ∀ p ∈ parts, tokenize table p.1.text = [p.1])
    (apart : (parts.map Prod.fst).IsChain Token.Apart)
    (gaps : ∀ p ∈ parts.dropLast, p.2.text ≠ "") :
    tokenize table (spaced lead parts) = parts.map Prod.fst := by
  rw [tokenize_eq]
  induction parts generalizing lead with
  | nil =>
    have only_blanks := tokens_blanks_append parted lead.blank []
    rw [List.append_nil, piecesOf_nil, mergeNames_nil] at only_blanks
    exact only_blanks
  | cons part parts ih =>
    obtain ⟨t, gap⟩ := part
    obtain ⟨here, others⟩ := List.forall_mem_cons.mp alone
    obtain ⟨apart_head, apart⟩ := List.isChain_cons.mp apart
    obtain ⟨some_gap, gaps⟩ := forall_mem_dropLast_cons gaps
    rw [tokenize_eq] at here
    rw [toList_spaced_cons, tokens_blanks_append parted lead.blank]
    by_cases no_gap : gap.text = ""
    · have last : parts = [] := not_not.mp fun more => some_gap more no_gap
      subst last
      rw [spaced, no_gap, String.toList_empty, List.append_nil]
      exact here
    · -- the gap leads the tokens behind it, and all of it but one blank is left for them
      have behind := ih gap others apart gaps
      obtain ⟨b, w, blank, text⟩ := exists_blank_cons_spaced no_gap parts
      rw [text, tokens_blank_cons parted blank] at behind
      rw [text, tokens_append_blank parted blank, here, behind]
      · rfl
      · rw [here, behind]
        intro a last
        cases last
        exact apart_head

/-- The tokens of a text are tokens that their own texts give, and no two names follow each other.
All such tokens, with any blanks between them and around them, are read as they are. -/
theorem tokenize_standard_spaced :
    (∀ text, (∀ t ∈ tokenize .standard text, tokenize .standard t.text = [t]) ∧
      (tokenize .standard text).IsChain Token.Apart) ∧
    ∀ lead parts, (∀ p ∈ parts, tokenize .standard p.1.text = [p.1]) →
      (parts.map Prod.fst).IsChain Token.Apart → (∀ p ∈ parts.dropLast, p.2.text ≠ "") →
      tokenize .standard (spaced lead parts) = parts.map Prod.fst := by
  have parted := OperatorTable.partedByBlanks_standard
  refine ⟨fun text => ?_, fun lead parts => tokenize_spaced parted lead⟩
  rw [tokenize_eq]
  refine ⟨fun t mem => ?_, isChain_mergeNames _⟩
  rw [tokenize_eq]
  exact tokens_of_mem_mergeNames parted (eachJustified_piecesOf _ _) t mem

/-- Without the line feed the last two tokens would be other ones. -/
theorem tokenize_standard_spaced_names :
    tokenize .standard "a b" = [⟨.name, "a b"⟩] ∧
    tokenize .standard "  a b \tTO\u00a0x>\n=" =
      [⟨.name, "a b"⟩, ⟨.upTo, "TO"⟩, ⟨.name, "x>"⟩, ⟨.equal, "="⟩] := by
  obtain ⟨same, reads⟩ := tokenize_standard_spaced
  have name : tokenize .standard "a b" = [⟨.name, "a b"⟩] :=
    (same "(a b )").1 ⟨.name, "a b"⟩ (by decide +kernel)
  let parts : List (Token × Gap) :=
    [(⟨.name, "a b"⟩, ⟨" \t", by decide⟩), (⟨.upTo, "TO"⟩, ⟨"\u00a0", by decide⟩),
      (⟨.name, "x>"⟩, ⟨"\n", by decide⟩), (⟨.equal, "="⟩, ⟨"", by decide⟩)]
  have alone : ∀ p ∈ parts, tokenize .standard p.1.text = [p.1] := by decide +kernel
  have apart : (parts.map Prod.fst).IsChain Token.Apart := by simp [parts, Token.Apart]
  have gaps : ∀ p ∈ parts.dropLast, p.2.text ≠ "" := by decide
  exact ⟨name, reads ⟨"  ", by decide⟩ parts alone apart gaps⟩

end MathShorthand
