import Mathlib.Data.List.Flatten
import MathShorthand.Proofs.Token.Folded
import MathShorthand.Proofs.Token.NameText

/-!
# Which texts are names

A text is a name by itself just if it is not empty, holds no blank and none of `nameEnds`, and does
not start with a keyword (`NameText`). Any name among the pieces of a longer text is such a text as
well, and a keyword never comes right behind it. Merging makes one name of several such texts with
blanks between them (`SpacedNames`).
-/

namespace MathShorthand

open Text (isBlank)

/-! ### Words in either case -/

/-- A letter in either case. -/
def CharSet.letter (c : Char) : CharSet := (CharSet.single c).eitherCase

theorem CharSet.contains_letter {c : Char} (lower : c.isLower = true) (d : Char) :
    (letter c).contains d = true ↔ d.toLower = c := by
  have itself : c.toLower = c := by
    have bounds := (isLower_iff c).mp lower
    rw [← Char.toNat_inj, toNat_toLower, if_neg (by omega)]
  rw [letter, contains_eitherCase_single, itself]

theorem begins_map_letter {word : List Char} (lower : ∀ c ∈ word, c.isLower = true)
    (text : List Char) :
    begins (word.map CharSet.letter) text = word.isPrefixOf (text.map Char.toLower) := by
  induction word generalizing text with
  | nil => cases text <;> rfl
  | cons c word ih =>
    obtain ⟨here, others⟩ := List.forall_mem_cons.mp lower
    cases text with
    | nil => rfl
    | cons d text =>
      have same : (CharSet.letter c).contains d = (c == d.toLower) := by
        rw [Bool.eq_iff_iff, CharSet.contains_letter here, beq_iff_eq, eq_comm]
      rw [List.map_cons, List.map_cons, begins, ih others, same]
      rfl

theorem contains_head_of_begins {word : List CharSet} {text : List Char} {set : CharSet}
    (found : begins word text = true) (first : word.head? = some set) :
    ∃ c, text.head? = some c ∧ set.contains c = true := by
  obtain ⟨others, rfl⟩ := List.head?_eq_some_iff.mp first
  cases text with
  | nil => cases found
  | cons c text =>
    rw [begins, Bool.and_eq_true] at found
    exact ⟨c, rfl, found.1⟩

theorem Operator.exists_begins {op : Operator Pattern} {P : List CharSet → Prop} {text : List Char}
    (spelled : ∃ words ∈ op.words?, ∀ w ∈ words, w ≠ [] ∧ P w) (found : op.recognize text ≠ none) :
    ∃ w, P w ∧ begins w text = true := by
  obtain ⟨words, known, each⟩ := spelled
  obtain ⟨w, listed, begun⟩ :=
    (op.recognize_ne_none_iff known fun w listed => (each w listed).1).mp found
  exact ⟨w, (each w listed).2, begun⟩

/-! ### What ends a name and what is none -/

/-- The characters besides blanks that end a name. An operator that starts with any other character,
as `>=` does, goes on with one of these. -/
def nameEnds : List Char := ['(', ')', '=', '+', '-', '*', '/', '\\', ',', '^', '_', '@', '#']

def EndsNames (c : Char) : Prop := isBlank c = true ∨ c ∈ nameEnds

instance (c : Char) : Decidable (EndsNames c) := inferInstanceAs (Decidable (_ ∨ _))

/-- The words that are no names, with the kinds they have instead. -/
def standardKeywords : List (String × Kind) :=
  [("int", .integral), ("sum", .sum), ("prod", .product), ("to", .upTo), ("of", .ofBody)]

/-- One of the keywords is in front, in any mixture of cases. -/
def StartsWithKeyword (text : List Char) : Prop :=
  ∃ p ∈ standardKeywords, p.1.toList <+: text.map Char.toLower

instance (text : List Char) : Decidable (StartsWithKeyword text) :=
  inferInstanceAs (Decidable (∃ p ∈ standardKeywords, _))

theorem isLower_of_mem_keyword {p : String × Kind} (mem : p ∈ standardKeywords) :
    ∀ c ∈ p.1.toList, c.isLower = true := by
  have lower : ∀ p ∈ standardKeywords, p.1.toList.all Char.isLower = true := by decide +kernel
  exact List.all_eq_true.mp (lower p mem)

namespace OperatorTable

variable {text : List Char}

theorem begins_keyword_iff {p : String × Kind} (mem : p ∈ standardKeywords) (text : List Char) :
    begins (p.1.toList.map CharSet.letter) text = true ↔ p.1.toList <+: text.map Char.toLower := by
  rw [begins_map_letter (isLower_of_mem_keyword mem), List.isPrefixOf_iff_prefix]

theorem exists_endsNames_of_breaks (breaks : standard.Breaks text) : ∃ c ∈ text, EndsNames c := by
  have spelled : ∀ op ∈ standard.operators, op.breaksNames = true → ∃ words ∈ op.words?,
      ∀ w ∈ words, w ≠ [] ∧ ∃ set ∈ w, set = .blank ∨ set ∈ nameEnds.map .single := by
    decide +kernel
  obtain ⟨op, mem, breaking, found⟩ := breaks
  obtain ⟨w, ⟨set, mem_set, which⟩, begun⟩ := op.exists_begins (spelled op mem breaking) found
  obtain ⟨c, mem_text, holds⟩ := exists_contains_of_begins begun set mem_set
  refine ⟨c, mem_text, ?_⟩
  rcases which with rfl | single
  · exact .inl holds
  · obtain ⟨d, mem_d, rfl⟩ := List.mem_map.mp single
    obtain rfl := (CharSet.contains_single d c).mp holds
    exact .inr mem_d

theorem breaks_of_endsNames {c : Char} (ends : EndsNames c) (text : List Char) :
    standard.Breaks (c :: text) := by
  have parted := partedByBlanks_standard
  rcases ends with blank | listed
  · exact parted.breaks_of_blank blank text
  · have found : nameEnds.all (fun c => (standard.findBreaking? [c]).isSome) = true := by
      decide +kernel
    have alone := isSome_findBreaking?_iff.mp (List.all_eq_true.mp found c listed)
    exact parted.breaks_of_front alone text

theorem startsWithKeyword_of_recognize {op : Operator Pattern} (mem : op ∈ standard.operators)
    (keeps : op.breaksNames = false) (found : op.recognize text ≠ none) :
    StartsWithKeyword text := by
  have spelled : ∀ op ∈ standard.operators, op.breaksNames = false → ∃ words ∈ op.words?,
      ∀ w ∈ words, w ≠ [] ∧ ∃ p ∈ standardKeywords, p.1.toList.map CharSet.letter <+: w := by
    decide +kernel
  obtain ⟨_, ⟨p, keyword, more, rfl⟩, begun⟩ := op.exists_begins (spelled op mem keeps) found
  rw [begins_append, Bool.and_eq_true] at begun
  exact ⟨p, keyword, (begins_keyword_iff keyword text).mp begun.1⟩

theorem not_noneTakes_of_keyword (starts : StartsWithKeyword text) :
    ¬standard.NoneTakes text := by
  have spelled : ∀ p ∈ standardKeywords, ∃ op ∈ standard.operators, ∃ words ∈ op.words?,
      (∀ w ∈ words, w ≠ []) ∧ p.1.toList.map CharSet.letter ∈ words := by
    decide +kernel
  intro free
  obtain ⟨p, keyword, front⟩ := starts
  obtain ⟨op, mem, words, known, some_text, listed⟩ := spelled p keyword
  have begun := (begins_keyword_iff keyword text).mpr front
  exact (op.recognize_ne_none_iff known some_text).mpr ⟨_, listed, begun⟩ (free op mem)

/-- No operator that ends names starts with a letter that a keyword starts with. -/
theorem not_breaks_of_keyword (starts : StartsWithKeyword text) : ¬standard.Breaks text := by
  have spelled : ∀ op ∈ standard.operators, op.breaksNames = true → ∃ words ∈ op.words?,
      ∀ w ∈ words, w ≠ [] ∧ ∀ p ∈ standardKeywords,
        ∃ set ∈ w.head?, ∃ letter ∈ (p.1.toList.map CharSet.letter).head?,
          set.inter letter = .empty := by
    decide +kernel
  rintro ⟨op, mem, breaking, found⟩
  obtain ⟨p, keyword, front⟩ := starts
  obtain ⟨w, apart, begun⟩ := op.exists_begins (spelled op mem breaking) found
  obtain ⟨set, first, letter, first', disjoint⟩ := apart p keyword
  obtain ⟨c, at_front, holds⟩ := contains_head_of_begins begun first
  obtain ⟨d, at_front', holds'⟩ :=
    contains_head_of_begins ((begins_keyword_iff keyword text).mpr front) first'
  obtain rfl := Option.some.inj (at_front.symm.trans at_front')
  have both := (CharSet.contains_inter set letter c).mpr ⟨holds, holds'⟩
  rw [disjoint] at both
  cases both

end OperatorTable

/-! ### The text of one name -/

structure NameText (text : List Char) : Prop where
  some_text : text ≠ []
  goes_on : ∀ c ∈ text, ¬EndsNames c
  no_keyword : ¬StartsWithKeyword text

instance (text : List Char) : Decidable (NameText text) :=
  -- named, as the search for an instance may come to one that goes through all characters
  letI : Decidable (∀ c ∈ text, ¬EndsNames c) := List.decidableBAll _ text
  decidable_of_iff (text ≠ [] ∧ (∀ c ∈ text, ¬EndsNames c) ∧ ¬StartsWithKeyword text)
    ⟨fun ⟨some_text, goes_on, no_keyword⟩ => ⟨some_text, goes_on, no_keyword⟩,
      fun name => ⟨name.some_text, name.goes_on, name.no_keyword⟩⟩

open OperatorTable

variable {t : Token} {ts : List Token} {text rest : List Char}

theorem NameText.of_justified (justified : Justified standard t rest) (name : t.kind = .name) :
    NameText t.text.toList := by
  cases justified with
  | operator first =>
    obtain ⟨op, mem, same, -⟩ := first.exists_mem
    exact absurd (same.trans name) (partedByBlanks_standard.no_name op mem)
  | @name c more rest free goes_on ends =>
    rw [String.toList_ofList]
    refine ⟨List.cons_ne_nil c more, fun d mem ends_names => ?_, fun starts => ?_⟩
    · rcases List.mem_cons.mp mem with rfl | later
      · obtain ⟨op, listed, -, found⟩ := breaks_of_endsNames ends_names (more ++ rest)
        exact found (free op listed)
      · obtain ⟨front, back, split⟩ := List.append_of_mem later
        exact goes_on front _ split (List.cons_ne_nil d back) (breaks_of_endsNames ends_names _)
    · refine not_noneTakes_of_keyword ?_ free
      obtain ⟨p, keyword, front⟩ := starts
      refine ⟨p, keyword, ?_⟩
      rw [List.map_append]
      exact front.trans (List.prefix_append _ _)

theorem NameText.justified (name : NameText text) :
    Justified standard ⟨.name, String.ofList text⟩ [] := by
  obtain ⟨some_text, goes_on, no_keyword⟩ := name
  have no_break {back : List Char} (within : ∀ c ∈ back, c ∈ text) : ¬standard.Breaks back := by
    intro breaks
    obtain ⟨c, mem, ends⟩ := exists_endsNames_of_breaks breaks
    exact goes_on c (within c mem) ends
  obtain ⟨c, more, rfl⟩ := List.exists_cons_of_ne_nil some_text
  refine .name ?_ ?_ (.inl rfl)
  · intro op mem
    rw [List.append_nil]
    by_contra found
    cases keeps : op.breaksNames with
    | true => exact no_break (fun c => id) ⟨op, mem, keeps, found⟩
    | false => exact no_keyword (startsWithKeyword_of_recognize mem keeps found)
  · intro front back split some_back
    rw [List.append_nil]
    refine no_break fun d mem => List.mem_cons_of_mem c ?_
    rw [split]
    exact List.mem_append_right front mem

theorem piecesOf_eq_name_iff (text : List Char) :
    piecesOf standard text = [⟨.name, String.ofList text⟩] ↔ NameText text := by
  rw [eq_comm, ← segments_iff]
  constructor
  · rintro ⟨-, justified, -⟩
    have name := NameText.of_justified justified rfl
    rwa [String.toList_ofList] at name
  · intro name
    refine ⟨?_, name.justified, trivial⟩
    rw [written_cons, written_nil, List.append_nil, String.toList_ofList]

-- a keyword counts at the front only, and half of an operator is no operator
example : NameText "untold>é".toList ∧ ¬NameText "Told".toList ∧ ¬NameText "x>=y".toList := by
  decide +kernel

/-! ### Behind a name -/

/-- No token of a keyword follows a name. -/
def NoKeywordBehindName (a b : Token) : Prop :=
  a.kind = .name → b.kind ∉ standardKeywords.map Prod.snd

theorem Justified.startsWithKeyword (justified : Justified standard t rest)
    (keyword : t.kind ∈ standardKeywords.map Prod.snd) :
    StartsWithKeyword (t.text.toList ++ rest) := by
  have keeps : ∀ op ∈ standard.operators, op.kind ∈ standardKeywords.map Prod.snd →
      op.breaksNames = false := by
    decide +kernel
  cases justified with
  | operator first =>
    obtain ⟨op, mem, same, recognized⟩ := first.exists_mem
    rw [← same] at keyword
    refine startsWithKeyword_of_recognize mem (keeps op mem keyword) ?_
    rw [recognized]
    exact Option.some_ne_none _
  | name =>
    change Kind.name ∈ standardKeywords.map Prod.snd at keyword
    exact absurd keyword (by decide)

theorem EachJustified.isChain (justified : EachJustified standard ts) :
    ts.IsChain NoKeywordBehindName := by
  induction ts with
  | nil => exact .nil
  | cons t ts ih =>
    refine List.isChain_cons.mpr ⟨?_, ih justified.2⟩
    intro u head name keyword
    obtain ⟨us, rfl⟩ := List.head?_eq_some_iff.mp head
    have breaks := justified.breaks_of_name partedByBlanks_standard name
    exact not_breaks_of_keyword (justified.2.1.startsWithKeyword keyword) breaks

/-! ### Rows of names and blanks -/

/-- The pieces are names and blanks, and the last one is a name. -/
def IsSpan (ts : List Token) : Prop := ts ≠ [] ∧ nameSpan ts = ts

theorem isSpan_name (name : t.kind = .name) : IsSpan (t :: ts) ↔ ts = [] ∨ IsSpan ts := by
  unfold IsSpan
  rw [nameSpan_name name, List.cons_inj_right, and_iff_right (List.cons_ne_nil t ts)]
  by_cases more : ts = []
  · subst more
    exact iff_of_true rfl (.inl rfl)
  · rw [or_iff_right more, and_iff_right more]

theorem isSpan_blank (blank : t.kind = .blank) : IsSpan (t :: ts) ↔ IsSpan ts := by
  unfold IsSpan
  rw [nameSpan_blank blank, and_iff_right (List.cons_ne_nil t ts)]
  by_cases span : nameSpan ts = []
  · rw [if_pos span, span]
    exact iff_of_false (List.cons_ne_nil t ts).symm fun ⟨more, same⟩ => more same.symm
  · rw [if_neg span, List.cons_inj_right]
    refine (and_iff_right_of_imp fun same => ?_).symm
    rwa [← same]

theorem not_isSpan_other (other : t.inRun = false) : ¬IsSpan (t :: ts) := by
  rintro ⟨-, same⟩
  rw [nameSpan_other other] at same
  cases same

theorem written_eq_nil (some_text : ∀ t ∈ ts, t.text ≠ "") (nothing : written ts = []) :
    ts = [] := by
  cases ts with
  | nil => rfl
  | cons t ts =>
    have empty := (List.append_eq_nil_iff.mp nothing).1
    exact absurd (String.toList_eq_nil_iff.mp empty) (some_text t List.mem_cons_self)

/-- All pieces are merged to a single name just if they are names and blanks, and names stand at
both ends. -/
theorem mergeNames_eq_name_iff (some_text : ∀ t ∈ ts, t.text ≠ "") :
    mergeNames ts = [⟨.name, String.ofList (written ts)⟩] ↔
      IsSpan ts ∧ ∃ t ∈ ts.head?, t.kind = .name := by
  constructor
  · intro merged
    cases ts with
    | nil =>
      rw [mergeNames_nil] at merged
      cases merged
    | cons t ts =>
      obtain ⟨first, others⟩ := List.forall_mem_cons.mp some_text
      rcases t.inRun_cases with name | blank | other
      · refine ⟨⟨List.cons_ne_nil t ts, ?_⟩, t, rfl, name⟩
        rw [mergeNames_name name] at merged
        obtain ⟨span, -⟩ := List.cons.inj merged
        have same := congrArg (String.toList ∘ Token.text) span
        simp only [Function.comp_apply, String.toList_ofList] at same
        -- what is behind the span has no text left
        obtain ⟨behind, split⟩ := nameSpan_prefix (t :: ts)
        have whole := congrArg written split
        rw [written_append, same] at whole
        have nothing := List.append_right_eq_self.mp whole
        have none_behind : behind = [] := by
          refine written_eq_nil (fun u mem => some_text u ?_) nothing
          rw [← split]
          exact List.mem_append_right _ mem
        rwa [none_behind, List.append_nil] at split
      · -- the blank would be in the text of the name, which is made of the pieces behind it
        rw [mergeNames_blank blank] at merged
        obtain ⟨spans, joins, kept, -⟩ := exists_spans ts
        rw [merged] at joins
        obtain ⟨span, rfl, joined_span⟩ := List.map_eq_singleton_iff.mp joins
        have same := congrArg (String.toList ∘ Token.text) joined_span
        simp only [Function.comp_apply, joined, String.toList_ofList] at same
        rw [List.flatten_singleton] at kept
        have le : (written span).length ≤ (written ts).length := (kept.flatMap _).length_le
        have pos := List.length_pos_iff.mpr (mt String.toList_eq_nil_iff.mp first)
        rw [same, written_cons, List.length_append] at le
        omega
      · rw [mergeNames_other other] at merged
        obtain ⟨same, -⟩ := List.cons.inj merged
        exact absurd (congrArg Token.kind same) (Token.inRun_eq_false other).1
  · rintro ⟨⟨-, span⟩, t, head, name⟩
    obtain ⟨us, rfl⟩ := List.head?_eq_some_iff.mp head
    rw [← span, mergeNames_nameSpan name]

/-! ### The text of merged names -/

/-- One or more names with blanks between them. -/
inductive SpacedNames : List Char → Prop where
  | one {text : List Char} (name : NameText text) : SpacedNames text
  | more {text gap names : List Char} (name : NameText text) (some_gap : gap ≠ [])
      (blank : ∀ c ∈ gap, isBlank c = true) (others : SpacedNames names) :
      SpacedNames (text ++ (gap ++ names))

/-- The induction takes off one piece at a time, so a gap may be in front. -/
theorem IsSpan.exists_spacedNames (span : IsSpan ts) (justified : EachJustified standard ts) :
    ∃ gap names, written ts = gap ++ names ∧ (∀ c ∈ gap, isBlank c = true) ∧ SpacedNames names ∧
      ((∃ t ∈ ts.head?, t.kind = .name) ↔ gap = []) := by
  have parted := partedByBlanks_standard
  induction ts with
  | nil => exact absurd rfl span.1
  | cons t ts ih =>
    obtain ⟨first, others⟩ := justified
    rcases t.inRun_cases with name | blank | other
    · have text := NameText.of_justified first name
      have head : ∃ u ∈ (t :: ts).head?, u.kind = .name := ⟨t, rfl, name⟩
      rcases (isSpan_name name).mp span with rfl | more
      · refine ⟨[], t.text.toList, ?_, nofun, .one text, iff_of_true head rfl⟩
        rw [written_cons, written_nil, List.append_nil, List.nil_append]
      · obtain ⟨gap, names, split, blank, spaced, starts⟩ := ih more others
        refine ⟨[], t.text.toList ++ (gap ++ names), ?_, nofun, ?_, iff_of_true head rfl⟩
        · rw [written_cons, split, List.nil_append]
        refine .more text (mt starts.mpr ?_) blank spaced
        rintro ⟨u, second, named⟩
        obtain ⟨us, rfl⟩ := List.head?_eq_some_iff.mp second
        have breaks := EachJustified.breaks_of_name parted ⟨first, others⟩ name
        exact not_name_of_breaks parted others.1 breaks named
    · obtain ⟨gap, names, split, blanks, spaced, -⟩ := ih ((isSpan_blank blank).mp span) others
      obtain ⟨b, is_blank, text⟩ := first.exists_blank parted blank
      refine ⟨b :: gap, names, ?_, List.forall_mem_cons.mpr ⟨is_blank, blanks⟩, spaced, ?_⟩
      · rw [written_cons, split, text]
        rfl
      · refine iff_of_false ?_ (List.cons_ne_nil b gap)
        rintro ⟨u, head, named⟩
        obtain rfl := Option.some.inj head
        cases blank.symm.trans named
    · exact absurd span (not_isSpan_other other)

theorem isSpan_blanks_append {gap : List Char} (blank : ∀ c ∈ gap, isBlank c = true) :
    IsSpan (piecesOf standard (gap ++ text)) ↔ IsSpan (piecesOf standard text) := by
  induction gap with
  | nil => rfl
  | cons b gap ih =>
    obtain ⟨first, others⟩ := List.forall_mem_cons.mp blank
    have parts := piecesOf_append_blank partedByBlanks_standard first [] (gap ++ text)
    rw [piecesOf_nil, List.nil_append, List.nil_append] at parts
    rw [List.cons_append, parts, isSpan_blank rfl, ih others]

theorem SpacedNames.isSpan (spaced : SpacedNames text) :
    IsSpan (piecesOf standard text) ∧ ∃ t ∈ (piecesOf standard text).head?, t.kind = .name := by
  induction spaced with
  | one name =>
    rw [(piecesOf_eq_name_iff _).mpr name]
    exact ⟨(isSpan_name rfl).mpr (.inl rfl), _, rfl, rfl⟩
  | @more text gap names name some_gap blank others ih =>
    have gapped := (isSpan_blanks_append blank).mpr ih.1
    obtain ⟨b, gap, rfl⟩ := List.exists_cons_of_ne_nil some_gap
    have parts := piecesOf_append_blank partedByBlanks_standard (blank b List.mem_cons_self)
    have behind := parts [] (gap ++ names)
    rw [piecesOf_nil, List.nil_append, List.nil_append] at behind
    rw [List.cons_append, behind] at gapped
    rw [List.cons_append, parts, (piecesOf_eq_name_iff _).mpr name]
    exact ⟨(isSpan_name rfl).mpr (.inr gapped), _, rfl, rfl⟩

theorem tokens_eq_name_iff (text : List Char) :
    mergeNames (piecesOf standard text) = [⟨.name, String.ofList text⟩] ↔ SpacedNames text := by
  have spelled : written (piecesOf standard text) = text := written_piecesOf _ _
  have justified := eachJustified_piecesOf standard text
  have merged := mergeNames_eq_name_iff (Pieces.text_ne_of_eachJustified justified)
  rw [spelled] at merged
  rw [merged]
  constructor
  · rintro ⟨span, head⟩
    obtain ⟨gap, names, split, -, spaced, starts⟩ := span.exists_spacedNames justified
    rw [starts.mp head, List.nil_append, spelled] at split
    rwa [split]
  · exact SpacedNames.isSpan

/-- What names are made of, one by one among the pieces and merged among the tokens. -/
theorem names_standard (text : String) :
    (piecesOf .standard text.toList = [⟨.name, text⟩] ↔ NameText text.toList) ∧
      (∀ t ∈ piecesOf .standard text.toList, t.kind = .name → NameText t.text.toList) ∧
      (piecesOf .standard text.toList).IsChain NoKeywordBehindName ∧
      (tokenize .standard text = [⟨.name, text⟩] ↔ SpacedNames text.toList) := by
  have justified := eachJustified_piecesOf standard text.toList
  have single := piecesOf_eq_name_iff text.toList
  have merged := tokens_eq_name_iff text.toList
  rw [String.ofList_toList] at single merged
  refine ⟨single, ?_, justified.isChain, ?_⟩
  · intro t mem name
    obtain ⟨rest, here⟩ := justified.exists_of_mem mem
    exact NameText.of_justified here name
  · rwa [tokenize_eq]

end MathShorthand
