import MathShorthand.Proofs.Grammar.Respelled
import MathShorthand.Proofs.Token.Respacing

/-!
# Upper and lower case

No standard operator tells the two cases of an ASCII letter apart. So operators take the same pieces
of a text in lower case, and the tokens are the same tokens in lower case
(`tokenize_standard_toLower`). This goes through for any change of characters that the operators of
a table do not see (`OperatorTable.Blind`).
-/

namespace MathShorthand

/-! ### Letters in words -/

def capitals : List Char := (List.range 26).map fun n => Char.ofNat (0x41 + n)

theorem toLower_eq_or_mem_capitals (c : Char) : c.toLower = c ∨ c ∈ capitals := by
  delta Char.toLower
  by_cases range : 'A'.val ≤ c.val ∧ c.val ≤ 'Z'.val
  · have bounds : 0x41 ≤ c.toNat ∧ c.toNat ≤ 0x5a := range
    refine .inr (List.mem_map.mpr ⟨c.toNat - 0x41, List.mem_range.mpr (by omega), ?_⟩)
    rw [Nat.add_sub_cancel' bounds.1, Char.ofNat_toNat]
  · exact .inl (dif_neg range)

/-- The set holds either both cases of a letter or none. -/
def CharSet.IgnoresCase (s : CharSet) : Prop := ∀ c ∈ capitals, s.contains c.toLower = s.contains c

-- named, as the search for an instance may come to one that goes through all characters
instance (s : CharSet) : Decidable s.IgnoresCase := List.decidableBAll _ capitals

theorem CharSet.IgnoresCase.contains {s : CharSet} (ignores : s.IgnoresCase) (c : Char) :
    s.contains c.toLower = s.contains c := by
  rcases toLower_eq_or_mem_capitals c with same | capital
  · rw [same]
  · exact ignores c capital

theorem begins_map {word : List CharSet} {g : Char → Char}
    (blind : ∀ set ∈ word, ∀ c, set.contains (g c) = set.contains c) (text : List Char) :
    begins word (text.map g) = begins word text := by
  induction word generalizing text with
  | nil => rfl
  | cons set word ih =>
    obtain ⟨here, others⟩ := List.forall_mem_cons.mp blind
    cases text with
    | nil => rfl
    | cons c text => rw [List.map_cons, begins, begins, here, ih others]

theorem find?_begins_map {words : List (List CharSet)} {g : Char → Char}
    (blind : ∀ w ∈ words, ∀ set ∈ w, ∀ c, set.contains (g c) = set.contains c)
    (text : List Char) : words.find? (begins · (text.map g)) = words.find? (begins · text) := by
  induction words with
  | nil => rfl
  | cons w words ih =>
    obtain ⟨here, others⟩ := List.forall_mem_cons.mp blind
    rw [List.find?_cons, List.find?_cons, begins_map here, ih others]

theorem Operator.recognize_map {op : Operator Pattern} {words : List (List CharSet)} {g : Char → Char}
    (known : op.words? = some words) (some_text : ∀ w ∈ words, w ≠ [])
    (blind : ∀ w ∈ words, ∀ set ∈ w, ∀ c, set.contains (g c) = set.contains c)
    (text : List Char) : op.recognize (text.map g) = (op.recognize text).map (List.map g) := by
  rw [op.recognize_of_words? known some_text, op.recognize_of_words? known some_text,
    find?_begins_map blind]
  simp only [Option.map_map, Function.comp_def, List.map_take]

variable {R : Type} [Regex R]

namespace OperatorTable

/-- The operators take the same pieces of a text when `g` changes its characters. -/
def Blind (table : OperatorTable R) (g : Char → Char) : Prop :=
  ∀ op ∈ table.operators, ∀ text, op.recognize (text.map g) = (op.recognize text).map (List.map g)

theorem blind_standard : standard.Blind Char.toLower := by
  have spelled : ∀ op ∈ standard.operators, ∃ words ∈ op.words?,
      (∀ w ∈ words, w ≠ []) ∧ ∀ w ∈ words, ∀ set ∈ w, set.IgnoresCase := by
    decide +kernel
  intro op mem
  obtain ⟨words, known, some_text, ignores⟩ := spelled op mem
  exact op.recognize_map known some_text fun w listed set mem_set =>
    (ignores w listed set mem_set).contains

end OperatorTable

/-! ### Pieces -/

variable {table : OperatorTable R} {g : Char → Char}

theorem findAmong?_map {operators : List (Operator R)}
    (blind : ∀ op ∈ operators, ∀ text,
      op.recognize (text.map g) = (op.recognize text).map (List.map g)) (text : List Char) :
    OperatorTable.findAmong? operators (text.map g) =
      (OperatorTable.findAmong? operators text).map (Prod.map id (List.map g)) := by
  unfold OperatorTable.findAmong?
  induction operators with
  | nil => rfl
  | cons op operators ih =>
    obtain ⟨here, others⟩ := List.forall_mem_cons.mp blind
    rw [List.findSome?_cons, List.findSome?_cons, here, ih others]
    cases op.recognize text <;> rfl

variable (blind : table.Blind g)
include blind

theorem find?_map (text : List Char) :
    table.find? (text.map g) = (table.find? text).map (Prod.map id (List.map g)) :=
  findAmong?_map blind text

theorem findBreaking?_map (text : List Char) :
    table.findBreaking? (text.map g) =
      (table.findBreaking? text).map (Prod.map id (List.map g)) :=
  findAmong?_map (fun op mem => blind op (List.mem_of_mem_filter mem)) text

theorem untilBreak_map (text : List Char) :
    Pieces.untilBreak table (text.map g) = (Pieces.untilBreak table text).map g := by
  induction text with
  | nil => rfl
  | cons c text ih =>
    have breaks := findBreaking?_map blind (c :: text)
    rw [List.map_cons] at breaks ⊢
    rw [Pieces.untilBreak, Pieces.untilBreak, breaks, Option.isSome_map, ih]
    split <;> rfl

theorem front?_map (text : List Char) :
    Pieces.front? table (text.map g) =
      (Pieces.front? table text).map (Prod.map id (List.map g)) := by
  cases text with
  | nil => rfl
  | cons c text =>
    have found := find?_map blind (c :: text)
    rw [List.map_cons] at found ⊢
    rw [Pieces.front?, Pieces.front?, found, untilBreak_map blind]
    cases table.find? (c :: text) <;> rfl

omit blind in
theorem written_respell (ts : List Token) :
    written (ts.map (Token.respell (String.map g))) = (written ts).map g := by
  induction ts with
  | nil => rfl
  | cons t ts ih =>
    rw [List.map_cons, written_cons, written_cons, ih, List.map_append, Token.respell,
      String.toList_map]

theorem EachJustified.respell {ts : List Token} (justified : EachJustified table ts) :
    EachJustified table (ts.map (Token.respell (String.map g))) := by
  induction ts with
  | nil => trivial
  | cons t ts ih =>
    obtain ⟨first, others⟩ := justified
    refine ⟨Pieces.justified_iff.mpr ?_, ih others⟩
    have found := Pieces.justified_iff.mp first
    rw [written_respell, Token.respell, String.toList_map, ← List.map_append, front?_map blind, found]
    rfl

theorem piecesOf_map [table.TakesPrefixes] (text : List Char) :
    piecesOf table (text.map g) = (piecesOf table text).map (Token.respell (String.map g)) := by
  symm
  rw [← segments_iff]
  refine ⟨?_, (eachJustified_piecesOf table text).respell blind⟩
  rw [written_respell, written_piecesOf]

/-! ### Tokens -/

omit blind

theorem map_ofList (g : Char → Char) (text : List Char) :
    (String.ofList text).map g = String.ofList (text.map g) := by
  apply String.toList_injective
  rw [String.toList_map, String.toList_ofList, String.toList_ofList]

theorem nameSpan_respell (f : String → String) (ts : List Token) :
    nameSpan (ts.map (Token.respell f)) = (nameSpan ts).map (Token.respell f) := by
  induction ts with
  | nil => rfl
  | cons t ts ih =>
    rw [List.map_cons]
    rcases t.inRun_cases with name | blank | other
    · rw [nameSpan_name name, nameSpan_name (t := t.respell f) name, ih]
      rfl
    · rw [nameSpan_blank blank, nameSpan_blank (t := t.respell f) blank, ih]
      simp only [List.map_eq_nil_iff]
      split <;> rfl
    · rw [nameSpan_other other, nameSpan_other (t := t.respell f) other]
      rfl

theorem afterRun_respell (f : String → String) (ts : List Token) :
    afterRun (ts.map (Token.respell f)) = (afterRun ts).map (Token.respell f) := by
  unfold afterRun
  rw [List.dropWhile_map]
  rfl

theorem mergeNames_respell (ts : List Token) :
    mergeNames (ts.map (Token.respell (String.map g))) =
      (mergeNames ts).map (Token.respell (String.map g)) := by
  fun_induction mergeNames ts with
  | case1 => exact mergeNames_nil
  | case2 t ts le blank ih =>
    rw [List.map_cons, mergeNames_blank (t := t.respell _) blank, ih]
  | case3 t ts le not_blank name ih =>
    have span : String.ofList (written (nameSpan ((t :: ts).map (Token.respell (String.map g))))) =
        (String.ofList (written (nameSpan (t :: ts)))).map g := by
      rw [nameSpan_respell, written_respell, map_ofList]
    rw [List.map_cons, mergeNames_name (t := t.respell _) name, ← List.map_cons, span,
      afterRun_respell, ih]
    rfl
  | case4 t ts le not_blank not_name ih =>
    have other : (t.respell (String.map g)).inRun = false := Token.inRun_of_other not_name not_blank
    rw [List.map_cons, mergeNames_other other, ih]
    rfl

theorem toList_toLower (text : String) : text.toLower.toList = text.toList.map Char.toLower :=
  String.toList_map

theorem tokenize_standard_toLower (text : String) :
    tokenize .standard text.toLower =
      (tokenize .standard text).map (Token.respell String.toLower) := by
  rw [tokenize_eq, tokenize_eq, toList_toLower, piecesOf_map OperatorTable.blind_standard,
    mergeNames_respell]
  rfl

end MathShorthand
