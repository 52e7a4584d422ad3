import Mathlib.Data.List.Nodup
import MathShorthand.Operator.Standard
import MathShorthand.Proofs.Pattern.Words
import MathShorthand.Proofs.Token.Segmentation

/-!
# The order of operators

The order of a table decides between operators that can take pieces of the same text
(`Operator.Overlap`), and matters to no others (`OperatorTable.find?_of_perm`). Among the standard
operators only `**` and `*` are such, and the longer one comes first. So no operator could take a
longer piece than the one that is found, and this goes for just those orders of the table that keep
the two as they are (`OperatorTable.find?_standard_of_order`).
-/

namespace MathShorthand

open scoped List

/-! ### Orders of a list -/

section

variable {α β : Type} {l l' : List α} {a b : α}

theorem mem_of_pair_sublist {front back : List α} (first : a ∉ front)
    (pair : [a, b] <+ front ++ a :: back) : b ∈ back := by
  obtain ⟨u, v, split, in_front, behind⟩ := List.sublist_append_iff.mp pair
  cases u with
  | nil =>
    obtain rfl : [a, b] = v := split
    exact List.singleton_sublist.mp (List.cons_sublist_cons.mp behind)
  | cons c u =>
    obtain ⟨rfl, -⟩ := List.cons.inj split
    exact absurd (in_front.subset List.mem_cons_self) first

/-- The first result in a list is the same in another order, unless two elements that both have
results change places. -/
theorem findSome?_of_perm {f : α → Option β} (perm : l'.Perm l) (nodup : l.Nodup)
    (keeps : ∀ a b, [a, b] <+ l → f a ≠ none → f b ≠ none → [a, b] <+ l') :
    l'.findSome? f = l.findSome? f := by
  cases found : l.findSome? f with
  | none =>
    rw [List.findSome?_eq_none_iff] at found ⊢
    exact fun a mem => found a (perm.mem_iff.mp mem)
  | some result =>
    obtain ⟨before, a, after, rfl, gives, none_before⟩ := List.findSome?_eq_some_iff.mp found
    have mem : a ∈ l' := perm.mem_iff.mpr (List.mem_append_right before List.mem_cons_self)
    obtain ⟨front, back, rfl⟩ := List.append_of_mem mem
    refine List.findSome?_eq_some_iff.mpr ⟨front, a, back, rfl, gives, fun c in_front => ?_⟩
    obtain ⟨-, nodup_back, apart⟩ := List.nodup_append.mp (perm.nodup_iff.mpr nodup)
    have not_first : a ∉ front := fun mem => apart a mem a List.mem_cons_self rfl
    have listed : c ∈ before ++ a :: after :=
      perm.mem_iff.mp (List.mem_append_left _ in_front)
    rcases List.mem_append.mp listed with earlier | later
    · exact none_before c earlier
    rcases List.mem_cons.mp later with rfl | later
    · exact absurd in_front not_first
    -- here it stands behind `a` in the one order and in front of it in the other
    by_contra some_result
    have pair : [a, c] <+ before ++ a :: after :=
      .append (List.nil_sublist before) ((List.singleton_sublist.mpr later).cons_cons a)
    have both := keeps a c pair (by rw [gives]; exact Option.some_ne_none result) some_result
    have behind := mem_of_pair_sublist not_first both
    exact apart c in_front c (List.mem_cons_of_mem a behind) rfl

end

/-! ### The pieces of an operator -/

/-- The piece is made of one character of each set. -/
def Fits (word : List CharSet) (piece : List Char) : Prop :=
  piece.length = word.length ∧ begins word piece = true

theorem Fits.append {v w : List CharSet} {front back : List Char} (first : Fits v front)
    (second : Fits w back) : Fits (v ++ w) (front ++ back) := by
  refine ⟨?_, ?_⟩
  · rw [List.length_append, List.length_append, first.1, second.1]
  · rw [begins_append, ← first.1, List.drop_left, second.2, begins_mono back first.2,
      Bool.and_true]

namespace Pattern

theorem fits_of_takes {p : Pattern} {word : List CharSet} (known : p.word? = some word)
    {atStart : Bool} {piece : List Char} (takes : p.Takes atStart piece) : Fits word piece := by
  induction takes generalizing word with
  | empty =>
    cases known
    exact ⟨rfl, rfl⟩
  | literal text =>
    cases known
    refine ⟨(List.length_map _).symm, ?_⟩
    rw [begins_map_single]
    exact List.isPrefixOf_iff_prefix.mpr List.prefix_rfl
  | one within =>
    cases known
    refine ⟨rfl, ?_⟩
    rw [begins, within]
    rfl
  | group inner ih => exact ih known
  | seq first second ih_first ih_second =>
    obtain ⟨front, known_a, more⟩ := Option.bind_eq_some_iff.mp known
    obtain ⟨back, known_b, same⟩ := Option.bind_eq_some_iff.mp more
    cases same
    exact (ih_first known_a).append (ih_second known_b)
  | _ => cases known

theorem exists_fits_of_takes {p : Pattern} {words : List (List CharSet)}
    (known : p.words? = some words) {atStart : Bool} {piece : List Char}
    (takes : p.Takes atStart piece) : ∃ w ∈ words, Fits w piece := by
  induction p generalizing words atStart piece with
  | alt a b =>
    obtain ⟨v, known_a, more⟩ := Option.bind_eq_some_iff.mp known
    obtain ⟨w, known_b, same⟩ := Option.bind_eq_some_iff.mp more
    cases same
    cases takes with
    | altLeft left => exact ⟨v, List.mem_cons_self, fits_of_takes known_a left⟩
    | altRight right =>
      exact ⟨w, List.mem_cons_of_mem v (List.mem_singleton_self w), fits_of_takes known_b right⟩
  | seq a b ih_a ih_b =>
    obtain ⟨front, known_a, more⟩ := Option.bind_eq_some_iff.mp known
    obtain ⟨ends, known_b, same⟩ := Option.bind_eq_some_iff.mp more
    cases same
    cases takes with
    | seq first second =>
      obtain ⟨w, listed, fits⟩ := ih_b known_b second
      exact ⟨front ++ w, List.mem_map_of_mem listed, (fits_of_takes known_a first).append fits⟩
  | _ =>
    obtain ⟨word, one_word, rfl⟩ := Option.map_eq_some_iff.mp known
    exact ⟨word, List.mem_singleton_self word, fits_of_takes one_word takes⟩

end Pattern

namespace Operator

variable {op a b : Operator Pattern} {words : List (List CharSet)} {text piece : List Char}

theorem exists_fits_of_takes (known : op.words? = some words)
    (takes : op.pattern.Takes true piece) : ∃ w ∈ words, Fits w piece := by
  unfold words? at known
  split at known
  · next p same =>
    rw [same] at takes
    generalize whole : piece = text at takes
    cases takes with
    | seq first second =>
      cases first
      subst whole
      exact Pattern.exists_fits_of_takes known second
  · cases known

theorem anchored_of_words? (known : op.words? = some words) : op.pattern.anchored = true := by
  unfold words? at known
  split at known
  · next p same => rw [same, Pattern.anchored, Pattern.anchored, Bool.true_or]
  · cases known

theorem takes_of_recognize (anchored : op.pattern.anchored = true)
    (recognized : op.recognize text = some piece) :
    piece <+: text ∧ op.pattern.Takes true piece := by
  obtain ⟨found, -⟩ := recognize_eq_some_iff.mp recognized
  obtain ⟨before, after, rfl, takes, -⟩ := Pattern.find?_eq_some found
  cases before with
  | nil => exact ⟨List.prefix_append piece after, takes⟩
  | cons c before => exact absurd takes (Pattern.not_takes_of_anchored anchored piece)

/-- Of the words that the text begins with none is longer than what the operator takes, if the
longer words come first. -/
theorem length_le_of_begins (known : op.words? = some words) (some_text : ∀ w ∈ words, w ≠ [])
    (falling : words.Pairwise fun v w => w.length ≤ v.length)
    (recognized : op.recognize text = some piece) {w : List CharSet} (listed : w ∈ words)
    (begun : begins w text = true) : w.length ≤ piece.length := by
  rw [op.recognize_of_words? known some_text] at recognized
  obtain ⟨first, found, rfl⟩ := Option.map_eq_some_iff.mp recognized
  obtain ⟨begun_first, before, after, rfl, missed⟩ := List.find?_eq_some_iff_append.mp found
  rw [List.length_take_of_le (MathShorthand.length_le_of_begins begun_first)]
  rcases List.mem_append.mp listed with earlier | later
  · have no := missed w earlier
    rw [begun] at no
    cases no
  rcases List.mem_cons.mp later with rfl | later
  · exact Nat.le_refl _
  · exact (List.pairwise_cons.mp (List.pairwise_append.mp falling).2.1).1 w later

/-- Both operators can take a piece of the same text. -/
def Overlap (a b : Operator Pattern) : Prop := ∃ text, a.recognize text ≠ none ∧ b.recognize text ≠ none

end Operator

/-- No text begins with both words, as they have no first character in common. -/
def Apart (v w : List CharSet) : Prop :=
  ∃ set ∈ v.head?, ∃ other ∈ w.head?, set.inter other = .empty

instance (v w : List CharSet) : Decidable (Apart v w) :=
  inferInstanceAs (Decidable (∃ set ∈ v.head?, _))

theorem Apart.not_begins {v w : List CharSet} (apart : Apart v w) {text : List Char}
    (begun : begins v text = true) : ¬begins w text = true := by
  obtain ⟨set, first, other, first', disjoint⟩ := apart
  obtain ⟨v', rfl⟩ := List.head?_eq_some_iff.mp first
  obtain ⟨w', rfl⟩ := List.head?_eq_some_iff.mp first'
  cases text with
  | nil => cases begun
  | cons c text =>
    rw [begins, Bool.and_eq_true] at begun ⊢
    rintro ⟨within, -⟩
    have both := (CharSet.contains_inter set other c).mpr ⟨begun.1, within⟩
    rw [disjoint] at both
    cases both

namespace OperatorTable

/-! ### Other orders -/

theorem findAmong?_of_perm {operators operators' : List (Operator Pattern)}
    (perm : operators'.Perm operators) (nodup : operators.Nodup)
    (keeps : ∀ a b, [a, b] <+ operators → a.Overlap b → [a, b] <+ operators')
    (text : List Char) : findAmong? operators' text = findAmong? operators text := by
  refine findSome?_of_perm perm nodup fun a b pair some_a some_b => keeps a b pair ⟨text, ?_, ?_⟩
  · exact mt Option.map_eq_none_iff.mpr some_a
  · exact mt Option.map_eq_none_iff.mpr some_b

/-- Operators that have no text in common may change places. -/
theorem find?_of_perm {table table' : OperatorTable Pattern}
    (perm : table'.operators.Perm table.operators) (nodup : table.operators.Nodup)
    (keeps : ∀ a b, [a, b] <+ table.operators → a.Overlap b → [a, b] <+ table'.operators)
    (text : List Char) :
    table'.find? text = table.find? text ∧
      table'.findBreaking? text = table.findBreaking? text := by
  refine ⟨findAmong?_of_perm perm nodup keeps text, ?_⟩
  refine findAmong?_of_perm (perm.filter _) (nodup.filter _) (fun a b pair overlap => ?_) text
  have breaking (op : Operator Pattern) (mem : op ∈ [a, b]) : op.breaksNames = true :=
    (List.mem_filter.mp (pair.subset mem)).2
  have same := List.filter_eq_self.mpr breaking
  rw [← same]
  exact (keeps a b (pair.trans List.filter_sublist) overlap).filter _

/-! ### The longest piece -/

/-- An operator for `kind` describes the piece, which stands at the start of the text. -/
def Matches (table : OperatorTable Pattern) (text : List Char) (kind : Kind) (piece : List Char) : Prop :=
  ∃ op ∈ table.operators, op.kind = kind ∧ piece <+: text ∧ op.pattern.Takes true piece

/-- Every operator is written in a few words, longer ones first, and no operator has a word that
begins the same texts as a shorter one of an operator before it. -/
structure LongestFirst (table : OperatorTable Pattern) : Prop where
  spelled : ∀ op ∈ table.operators, ∃ words ∈ op.words?, (∀ w ∈ words, w ≠ []) ∧
    words.Pairwise fun v w => w.length ≤ v.length
  order : table.operators.Pairwise fun a b => ∃ vs ∈ a.words?, ∃ ws ∈ b.words?,
    ∀ v ∈ vs, ∀ w ∈ ws, Apart v w ∨ w.length ≤ v.length

namespace LongestFirst

variable {table : OperatorTable Pattern} (longest : table.LongestFirst) {text piece : List Char}
  {kind : Kind}
include longest

theorem exists_word_of_matches (matched : table.Matches text kind piece) :
    ∃ op ∈ table.operators, ∃ words ∈ op.words?, ∃ w ∈ words, piece.length = w.length ∧
      begins w text = true ∧ op.recognize text ≠ none := by
  obtain ⟨op, mem, -, ⟨rest, rfl⟩, takes⟩ := matched
  obtain ⟨words, known, some_text, -⟩ := longest.spelled op mem
  obtain ⟨w, listed, length, begun⟩ := op.exists_fits_of_takes known takes
  have begun := begins_mono rest begun
  exact ⟨op, mem, words, known, w, listed, length, begun,
    (op.recognize_ne_none_iff known some_text).mpr ⟨w, listed, begun⟩⟩

theorem not_matches_of_find? (missed : table.find? text = none) :
    ¬table.Matches text kind piece := by
  intro matched
  obtain ⟨op, mem, -, -, -, -, -, -, recognized⟩ := longest.exists_word_of_matches matched
  exact recognized (find?_eq_none_iff.mp missed op mem)

theorem matches_of_find? (found : table.find? text = some (kind, piece)) :
    table.Matches text kind piece := by
  have first : table.FirstTakes text kind piece := find?_eq_some_iff.mp found
  obtain ⟨op, mem, same, recognized⟩ := first.exists_mem
  obtain ⟨words, known, -⟩ := longest.spelled op mem
  exact ⟨op, mem, same, op.takes_of_recognize (op.anchored_of_words? known) recognized⟩

/-- Nothing that an operator describes is longer than what the first one takes. -/
theorem length_le_of_matches (found : table.find? text = some (kind, piece)) {other : List Char}
    {kind' : Kind} (matched : table.Matches text kind' other) : other.length ≤ piece.length := by
  obtain ⟨before, op, after, split, -, recognized, none_before⟩ := find?_eq_some_iff.mp found
  obtain ⟨op', mem', ws, known', w, listed, length, begun, recognized'⟩ :=
    longest.exists_word_of_matches matched
  have mem : op ∈ table.operators := by
    rw [split]
    exact List.mem_append_right before List.mem_cons_self
  obtain ⟨vs, known, some_text, falling⟩ := longest.spelled op mem
  rw [split] at mem'
  rcases List.mem_append.mp mem' with earlier | later
  · exact absurd (none_before op' earlier) recognized'
  rw [length]
  rcases List.mem_cons.mp later with rfl | later
  · obtain rfl := Option.some.inj (known.symm.trans known')
    exact op'.length_le_of_begins known some_text falling recognized listed begun
  · have order := longest.order
    rw [split] at order
    obtain ⟨vs', known_vs, ws', known_ws, apart⟩ :=
      (List.pairwise_cons.mp (List.pairwise_append.mp order).2.1).1 op' later
    obtain rfl := Option.some.inj (known.symm.trans known_vs)
    obtain rfl := Option.some.inj (known'.symm.trans known_ws)
    -- the word that was taken begins the same text, so the two are not apart
    obtain ⟨v, listed_v, begun_v, -, length_v⟩ :=
      op.exists_begins_of_recognize known some_text recognized
    rw [length_v]
    refine (apart v listed_v w listed).resolve_left fun apart => ?_
    exact apart.not_begins begun_v begun

end LongestFirst

/-! ### The standard operators -/

/-- Among the standard operators only `**` and `*` can begin alike, and come in this order. -/
theorem pairwise_standard :
    standard.operators.Pairwise fun a b => ∃ vs ∈ a.words?, ∃ ws ∈ b.words?,
      (∀ v ∈ vs, ∀ w ∈ ws, Apart v w) ∨ a.kind = .looseTimes ∧ b.kind = .times ∧
        ∀ v ∈ vs, ∀ w ∈ ws, w.length ≤ v.length := by
  decide +kernel

theorem nodup_kinds_standard : (standard.operators.map Operator.kind).Nodup := by
  decide +kernel

theorem longestFirst_standard : standard.LongestFirst where
  spelled := by decide +kernel
  order := by
    refine pairwise_standard.imp ?_
    rintro a b ⟨vs, known, ws, known', apart | ⟨-, -, le⟩⟩
    · exact ⟨vs, known, ws, known', fun v mem w mem' => .inl (apart v mem w mem')⟩
    · exact ⟨vs, known, ws, known', fun v mem w mem' => .inr (le v mem w mem')⟩

theorem kinds_of_overlap {a b : Operator Pattern} (pair : [a, b] <+ standard.operators)
    (overlap : a.Overlap b) : a.kind = .looseTimes ∧ b.kind = .times := by
  obtain ⟨vs, known, ws, known', apart | ⟨loose, tight, -⟩⟩ :=
    List.pairwise_iff_forall_sublist.mp pairwise_standard pair
  · obtain ⟨text, taken, taken'⟩ := overlap
    have spelled {op : Operator Pattern} {words : List (List CharSet)} (mem : op ∈ [a, b])
        (known : words ∈ op.words?) (taken : op.recognize text ≠ none) :
        ∃ w ∈ words, begins w text = true := by
      obtain ⟨words', known', some_text, -⟩ :=
        longestFirst_standard.spelled op (pair.subset mem)
      obtain rfl := Option.some.inj (known'.symm.trans known)
      exact (op.recognize_ne_none_iff known some_text).mp taken
    obtain ⟨v, listed, begun⟩ := spelled List.mem_cons_self known taken
    obtain ⟨w, listed', begun'⟩ :=
      spelled (List.mem_cons_of_mem a (List.mem_singleton_self b)) known' taken'
    exact absurd begun' ((apart v listed w listed').not_begins begun)
  · exact ⟨loose, tight⟩

theorem pair_sublist_of_kinds {operators : List (Operator Pattern)}
    (perm : operators.Perm standard.operators)
    (order : [.looseTimes, .times] <+ operators.map Operator.kind) {a b : Operator Pattern}
    (pair : [a, b] <+ standard.operators) (loose : a.kind = .looseTimes) (tight : b.kind = .times) :
    [a, b] <+ operators := by
  obtain ⟨found, sublist, kinds⟩ := List.sublist_map_iff.mp order
  obtain ⟨x, _, rfl, kind_x, more⟩ := List.map_eq_cons_iff.mp kinds.symm
  obtain ⟨y, rfl, kind_y⟩ := List.map_eq_singleton_iff.mp more
  -- each kind has one operator only
  have unique {op op' : Operator Pattern} (mem : op ∈ [a, b]) (mem' : op' ∈ [x, y])
      (same : op'.kind = op.kind) : op' = op :=
    List.inj_on_of_nodup_map nodup_kinds_standard (perm.subset (sublist.subset mem'))
      (pair.subset mem) same
  obtain rfl : x = a := unique List.mem_cons_self List.mem_cons_self (kind_x.trans loose.symm)
  obtain rfl : y = b := unique (List.mem_cons_of_mem _ (List.mem_singleton_self b))
    (List.mem_cons_of_mem _ (List.mem_singleton_self y)) (kind_y.trans tight.symm)
  exact sublist

/-- On `**` the two operators tell their order. -/
theorem kinds_sublist_of_find? {operators : List (Operator Pattern)}
    (perm : operators.Perm standard.operators)
    (same : find? ⟨operators⟩ ['*', '*'] = standard.find? ['*', '*']) :
    [.looseTimes, .times] <+ operators.map Operator.kind := by
  obtain ⟨found, tight, listed, kind, taken⟩ :
      standard.find? ['*', '*'] = some (.looseTimes, ['*', '*']) ∧
        ∃ op ∈ standard.operators, op.kind = .times ∧ op.recognize ['*', '*'] ≠ none := by
    decide +kernel
  rw [found] at same
  obtain ⟨before, loose, after, rfl, kind', -, none_before⟩ := find?_eq_some_iff.mp same
  have behind : .times ∈ after.map Operator.kind := by
    rw [← kind]
    rcases List.mem_append.mp (perm.mem_iff.mpr listed) with earlier | later
    · exact absurd (none_before tight earlier) taken
    rcases List.mem_cons.mp later with rfl | later
    · cases kind.symm.trans kind'
    · exact List.mem_map_of_mem later
  rw [List.map_append, List.map_cons, kind']
  exact ((List.singleton_sublist.mpr behind).cons_cons _).trans (List.sublist_append_right _ _)

/-- The operator that is found in the standard table takes the longest piece at the start of the
text that any operator describes. The same is found in just those orders of the table that keep
`**` in front of `*`. -/
theorem find?_standard_of_order :
    (∀ text,
      (∀ kind piece, standard.find? text = some (kind, piece) →
        standard.Matches text kind piece ∧
          ∀ kind' other, standard.Matches text kind' other → other.length ≤ piece.length) ∧
      (standard.find? text = none → ∀ kind piece, ¬standard.Matches text kind piece)) ∧
    ∀ operators, operators.Perm standard.operators →
      ([.looseTimes, .times] <+ operators.map Operator.kind ↔
        ∀ text, find? ⟨operators⟩ text = standard.find? text ∧
          findBreaking? ⟨operators⟩ text = standard.findBreaking? text) := by
  have longest := longestFirst_standard
  refine ⟨fun text => ⟨fun kind piece found => ⟨longest.matches_of_find? found, ?_⟩, ?_⟩, ?_⟩
  · exact fun kind' other matched => longest.length_le_of_matches found matched
  · exact fun missed kind piece => longest.not_matches_of_find? missed
  · intro operators perm
    constructor
    · intro order
      refine find?_of_perm perm (List.Nodup.of_map _ nodup_kinds_standard) fun a b pair overlap => ?_
      obtain ⟨loose, tight⟩ := kinds_of_overlap pair overlap
      exact pair_sublist_of_kinds perm order pair loose tight
    · exact fun same => kinds_sublist_of_find? perm (same _).1

/-- With the words behind all symbols the same is found, and not so with the whole table turned
around. Of the two words for a product the longer one is taken. -/
theorem find?_standard_reordered :
    let table := standard.operators.filter (·.breaksNames) ++
      standard.operators.filter (!·.breaksNames)
    table.Perm standard.operators ∧ [.looseTimes, .times] <+ table.map Operator.kind ∧
      (∀ text, find? ⟨table⟩ text = standard.find? text ∧
        findBreaking? ⟨table⟩ text = standard.findBreaking? text) ∧
      standard.operators.reverse.Perm standard.operators ∧
      ¬(∀ text, find? ⟨standard.operators.reverse⟩ text = standard.find? text ∧
        findBreaking? ⟨standard.operators.reverse⟩ text = standard.findBreaking? text) ∧
      standard.find? "Productions".toList = some (.product, "Production".toList) ∧
      standard.Matches "Productions".toList .product "Prod".toList ∧
      "Prod".toList.length ≤ "Production".toList.length := by
  intro table
  obtain ⟨longest, orders⟩ := find?_standard_of_order
  have perm : table.Perm standard.operators := List.filter_append_perm _ _
  obtain ⟨order, turned⟩ : [.looseTimes, .times] <+ table.map Operator.kind ∧
      ¬[.looseTimes, .times] <+ standard.operators.reverse.map Operator.kind := by
    decide +kernel
  have reversed := List.reverse_perm standard.operators
  obtain ⟨found, op, mem, kind, anchored, alone⟩ :
      standard.find? "Productions".toList = some (.product, "Production".toList) ∧
        ∃ op ∈ standard.operators, op.kind = .product ∧ op.pattern.anchored = true ∧
          op.recognize "Prod".toList = some "Prod".toList := by
    decide +kernel
  have part : standard.Matches "Productions".toList .product "Prod".toList :=
    ⟨op, mem, kind, by decide, (op.takes_of_recognize anchored alone).2⟩
  refine ⟨perm, order, (orders table perm).mp order, reversed,
    mt (orders _ reversed).mpr turned, found, part, ?_⟩
  exact ((longest _).1 _ _ found).2 _ _ part

end OperatorTable

end MathShorthand
