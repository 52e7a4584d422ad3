import Mathlib.Data.List.Chain
import MathShorthand.Proofs.Compile.Stages
import MathShorthand.Proofs.Token.NameText
import MathShorthand.Proofs.Tree.InOrder

/-!
# Braces of the output

In LaTeX braces hold an argument together, and a brace behind a backslash is no such brace.
Whatever is written of an expression has its braces in pairs and none behind a backslash
(`WellBraced`), as long as no name holds either. An escape puts a backslash in front of a finished
text and a script or a fraction puts a brace in front of and behind one, so what is kept for every
expression says as well how its text starts and ends (`Fragment`).
-/

namespace MathShorthand

open Grammar

def IsBrace (c : Char) : Prop := c = '{' ∨ c = '}'

instance (c : Char) : Decidable (IsBrace c) := inferInstanceAs (Decidable (_ ∨ _))

/-- The second character is no brace if the first escapes it. -/
def Unescaped (a b : Char) : Prop := a = '\\' → ¬IsBrace b

structure WellBraced (text : List Char) : Prop where
  covered : ∀ front, front <+: text → front.count '}' ≤ front.count '{'
  balanced : text.count '{' = text.count '}'
  unescaped : text.IsChain Unescaped

structure Fragment (text : List Char) : Prop extends WellBraced text where
  some_text : text ≠ []
  starts : ∀ c ∈ text.head?, ¬IsBrace c
  ends : ∀ c ∈ text.getLast?, c ≠ '\\'

/-! ### Putting texts together -/

section

variable {u v : List Char}

theorem wellBraced_nil : WellBraced [] where
  covered front fits := by simp [List.prefix_nil.mp fits]
  balanced := rfl
  unescaped := .nil

theorem WellBraced.append (first : WellBraced u) (second : WellBraced v)
    (apart : ∀ a ∈ u.getLast?, ∀ b ∈ v.head?, Unescaped a b) : WellBraced (u ++ v) where
  covered front fits := by
    rcases List.prefix_or_prefix_of_prefix fits (List.prefix_append u v) with inside | ⟨more, rfl⟩
    · exact first.covered front inside
    · have le := second.covered more ((List.prefix_append_right_inj u).mp fits)
      have same := first.balanced
      simp only [List.count_append]
      omega
  balanced := by
    have same := first.balanced
    have same' := second.balanced
    simp only [List.count_append]
    omega
  unescaped := List.isChain_append.mpr ⟨first.unescaped, second.unescaped, apart⟩

theorem WellBraced.braced (inside : WellBraced u) (ends : ∀ c ∈ u.getLast?, c ≠ '\\') :
    WellBraced ('{' :: (u ++ ['}'])) where
  covered front fits := by
    rcases List.prefix_cons_iff.mp fits with rfl | ⟨more, rfl, fits_more⟩
    · simp
    · rcases List.prefix_concat_iff.mp fits_more with rfl | within
      · simp [inside.balanced]
      · have le := inside.covered more within
        simp only [List.count_cons]
        simp
        omega
  balanced := by simp [inside.balanced]
  unescaped := by
    have closed : (u ++ ['}']).IsChain Unescaped := by
      refine List.isChain_append.mpr ⟨inside.unescaped, .singleton _, ?_⟩
      intro a last b _ escapes
      exact absurd escapes (ends a last)
    exact List.isChain_cons.mpr ⟨fun b _ escapes => absurd escapes (by decide), closed⟩

theorem Fragment.append (first : Fragment u) (second : Fragment v) : Fragment (u ++ v) where
  toWellBraced := first.toWellBraced.append second.toWellBraced fun a last _ _ escapes =>
    absurd escapes (first.ends a last)
  some_text := List.append_ne_nil_of_left_ne_nil first.some_text v
  starts := by
    rw [List.head?_append_of_ne_nil _ first.some_text]
    exact first.starts
  ends := by
    rw [List.getLast?_append_of_ne_nil _ second.some_text]
    exact second.ends

theorem Fragment.append_braced (first : Fragment u) (second : Fragment v) :
    Fragment (u ++ '{' :: (v ++ ['}'])) where
  toWellBraced := first.toWellBraced.append (second.toWellBraced.braced second.ends)
    fun a last _ _ escapes => absurd escapes (first.ends a last)
  some_text := List.append_ne_nil_of_left_ne_nil first.some_text _
  starts := by
    rw [List.head?_append_of_ne_nil _ first.some_text]
    exact first.starts
  ends := by
    have last : (u ++ '{' :: (v ++ ['}'])).getLast? = some '}' := by
      rw [← List.cons_append, ← List.append_assoc, List.getLast?_concat]
    rw [last]
    rintro c ⟨⟩
    decide

theorem Fragment.escaped (inside : Fragment u) : Fragment ('\\' :: u) where
  covered front fits := by
    rcases List.prefix_cons_iff.mp fits with rfl | ⟨more, rfl, fits_more⟩
    · simp
    · simpa using inside.covered more fits_more
  balanced := by simpa using inside.balanced
  unescaped := List.isChain_cons.mpr ⟨fun b first _ => inside.starts b first, inside.unescaped⟩
  some_text := List.cons_ne_nil _ _
  starts := by simp [IsBrace]
  ends := by
    rw [← List.singleton_append, List.getLast?_append_of_ne_nil _ inside.some_text]
    exact inside.ends

end

/-! ### The texts that are written -/

/-- There are no braces in the text, and no backslash at its end. -/
def Plain (text : String) : Prop :=
  text.toList ≠ [] ∧ (∀ c ∈ text.toList, ¬IsBrace c) ∧ ∀ c ∈ text.toList.getLast?, c ≠ '\\'

instance (text : String) : Decidable (Plain text) :=
  decidable_of_iff (text.toList ≠ [] ∧ text.toList.all (fun c => ¬IsBrace c) = true ∧
    text.toList.getLast?.all (· ≠ '\\') = true) (by simp [Plain, Option.all_eq_true])

theorem Plain.fragment {text : String} (plain : Plain text) : Fragment text.toList := by
  obtain ⟨some_text, no_brace, ends⟩ := plain
  have none_of {front : List Char} (sub : front ⊆ text.toList) :
      front.count '{' = 0 ∧ front.count '}' = 0 := by
    simp only [List.count_eq_zero]
    exact ⟨fun mem => no_brace _ (sub mem) (.inl rfl), fun mem => no_brace _ (sub mem) (.inr rfl)⟩
  refine ⟨⟨fun front fits => ?_, ?_, ?_⟩, some_text, ?_, ends⟩
  · have none := none_of fits.subset
    omega
  · have none := none_of (List.Subset.refl _)
    omega
  · apply List.Pairwise.isChain
    exact List.pairwise_of_forall_mem_list fun a _ b mem _ => no_brace b mem
  · intro c first
    exact no_brace c (List.mem_of_mem_head? first)

def operatorTexts : List String :=
  [" ", "_", "^", "+", "-", "=", "\\cdot", "\\geq", "\\leq", "\\neq", "\\approx", "\\to", "\\hat",
    "\\vec", "\\frac", "\\int", "\\sum", "\\prod"]

theorem fragment_of_mem_operatorTexts {text : String} (mem : text ∈ operatorTexts) :
    Fragment text.toList := by
  have plain : ∀ text ∈ operatorTexts, Plain text := by decide +kernel
  exact (plain text mem).fragment

theorem Fragment.argument {u v : String} (first : Fragment u.toList)
    (second : Fragment v.toList) : Fragment (u ++ braced v).toList := by
  have chars : (u ++ braced v).toList = u.toList ++ '{' :: (v.toList ++ ['}']) := by
    simp [braced]
  rw [chars]
  exact first.append_braced second

theorem Fragment.text {u v : String} (first : Fragment u.toList) (second : Fragment v.toList) :
    Fragment (u ++ v).toList := by
  rw [String.toList_append]
  exact first.append second

theorem fragment_intercalate {texts : List String} (some_texts : texts ≠ [])
    (fragments : ∀ t ∈ texts, Fragment t.toList) : Fragment (" ".intercalate texts).toList := by
  have space : Fragment " ".toList := fragment_of_mem_operatorTexts (by decide)
  induction texts with
  | nil => exact absurd rfl some_texts
  | cons a texts ih =>
    obtain ⟨first, others⟩ := List.forall_mem_cons.mp fragments
    cases texts with
    | nil => rwa [String.intercalate_singleton]
    | cons b texts =>
      rw [String.intercalate_cons_cons]
      exact (first.text space).text (ih (List.cons_ne_nil b texts) others)

namespace Kind

variable {op : Kind} {text operand left right : String}

theorem fragment_latexBefore (inside : Fragment operand.toList)
    (written : op.latexBefore operand = .ok text) : Fragment text.toList := by
  unfold latexBefore at written
  split at written <;> cases written
  · rw [String.toList_append]
    exact inside.escaped
  · exact (fragment_of_mem_operatorTexts (by decide)).argument inside
  · exact (fragment_of_mem_operatorTexts (by decide)).argument inside
  · exact (fragment_of_mem_operatorTexts (by decide)).text inside
  · exact (fragment_of_mem_operatorTexts (by decide)).text inside

theorem fragment_latexAfter (inside : Fragment operand.toList)
    (written : op.latexAfter operand = .ok text) : Fragment text.toList := by
  unfold latexAfter at written
  split at written <;> cases written <;>
    exact (fragment_of_mem_operatorTexts (by decide)).argument inside

theorem mem_operatorTexts_of_infixSymbol? {symbol : String}
    (known : op.infixSymbol? = some symbol) :
    symbol ∈ operatorTexts := by
  cases op <;> cases known <;> decide

theorem mem_operatorTexts_of_boundedSymbol? {symbol : String}
    (known : op.boundedSymbol? = some symbol) : symbol ∈ operatorTexts := by
  cases op <;> cases known <;> decide

theorem fragment_latexBetween (before : Fragment left.toList) (behind : Fragment right.toList)
    (written : op.latexBetween left right = .ok text) : Fragment text.toList := by
  have script : Fragment "_".toList ∧ Fragment "^".toList ∧ Fragment "\\frac".toList ∧
      Fragment " ".toList := by
    refine ⟨?_, ?_, ?_, ?_⟩ <;> exact fragment_of_mem_operatorTexts (by decide)
  obtain ⟨low, high, fraction, space⟩ := script
  unfold latexBetween at written
  split at written
  · cases written
    exact (before.text low).argument behind
  · cases written
    exact (before.text high).argument behind
  · cases written
    exact (fraction.argument before).argument behind
  · split at written
    · next symbol known =>
      cases written
      have middle := fragment_of_mem_operatorTexts (mem_operatorTexts_of_infixSymbol? known)
      exact (((before.text space).text middle).text space).text behind
    · cases written

end Kind

/-! ### Expressions -/

/-- No name in what is read has a brace or a backslash in a place where it would matter. -/
def PlainNames (reading : List Item) : Prop := ∀ text, .name text ∈ reading → Plain text

theorem plainNames_append {a b : List Item} :
    PlainNames (a ++ b) ↔ PlainNames a ∧ PlainNames b := by
  simp [PlainNames, or_imp, forall_and]

theorem plainNames_operator {op : Kind} {items : List Item} :
    PlainNames (.operator op :: items) ↔ PlainNames items := by
  simp [PlainNames]

namespace Expr

mutual

theorem fragment_latex (e : Expr) (plain : PlainNames e.reading) {text : String}
    (written : e.latex = .ok text) : Fragment text.toList := by
  match e with
  | name text' =>
    cases written
    exact (plain text (by simp [reading])).fragment
  | prefixed op x =>
    rw [reading, plainNames_operator] at plain
    obtain ⟨operand, written_operand, before⟩ := bind_eq_ok written
    exact Kind.fragment_latexBefore (fragment_latex x plain written_operand) before
  | postfixed op x =>
    rw [reading, plainNames_append] at plain
    obtain ⟨operand, written_operand, after⟩ := bind_eq_ok written
    exact Kind.fragment_latexAfter (fragment_latex x plain.1 written_operand) after
  | binary op l r =>
    rw [reading, plainNames_append, plainNames_operator] at plain
    rw [latex] at written
    obtain ⟨left, written_left, written⟩ := bind_eq_ok written
    obtain ⟨right, written_right, between⟩ := bind_eq_ok written
    exact Kind.fragment_latexBetween (fragment_latex l plain.1 written_left)
      (fragment_latex r plain.2 written_right) between
  | bounded op bounds body =>
    rw [reading, plainNames_operator, plainNames_append] at plain
    rw [latex] at written
    split at written
    · cases written
    · next symbol known =>
      have listed := Kind.mem_operatorTexts_of_boundedSymbol? known
      have space : Fragment " ".toList := fragment_of_mem_operatorTexts (by decide)
      obtain ⟨texts, written_bounds, written⟩ := bind_eq_ok written
      obtain ⟨last, written_body, written⟩ := bind_eq_ok written
      cases written
      have fragments := fragments_latexBounds bounds plain.1 listed written_bounds
      have front : Fragment
          (if texts.isEmpty then symbol else " ".intercalate texts).toList := by
        split
        · exact fragment_of_mem_operatorTexts listed
        · next some_texts => exact fragment_intercalate (by simpa using some_texts) fragments
      exact (front.text space).text (fragment_latex body plain.2 written_body)

theorem fragments_latexBounds (bounds : List Expr) (plain : PlainNames (readings bounds))
    {symbol : String} (listed : symbol ∈ operatorTexts) {texts : List String}
    (written : latexBounds symbol bounds = .ok texts) : ∀ t ∈ texts, Fragment t.toList := by
  have in_front : Fragment symbol.toList := fragment_of_mem_operatorTexts listed
  have low : Fragment "_".toList := fragment_of_mem_operatorTexts (by decide)
  have high : Fragment "^".toList := fragment_of_mem_operatorTexts (by decide)
  match bounds with
  | [] =>
    cases written
    simp
  | bound :: bounds =>
    rw [readings, plainNames_append] at plain
    obtain ⟨plain_bound, plain_others⟩ := plain
    by_cases range : ∃ lower upper, bound = binary .upTo lower upper
    · obtain ⟨lower, upper, rfl⟩ := range
      rw [reading, plainNames_append, plainNames_operator] at plain_bound
      rw [latexBounds] at written
      obtain ⟨below, written_lower, written⟩ := bind_eq_ok written
      obtain ⟨above, written_upper, written⟩ := bind_eq_ok written
      obtain ⟨others, written_others, written⟩ := bind_eq_ok written
      cases written
      have below := fragment_latex lower plain_bound.1 written_lower
      have above := fragment_latex upper plain_bound.2 written_upper
      exact List.forall_mem_cons.mpr
        ⟨(((in_front.text low).argument below).text high).argument above,
          fragments_latexBounds bounds plain_others listed written_others⟩
    · rw [latexBounds_cons symbol bounds fun lower upper same => range ⟨lower, upper, same⟩]
        at written
      obtain ⟨above, written_bound, written⟩ := bind_eq_ok written
      obtain ⟨others, written_others, written⟩ := bind_eq_ok written
      cases written
      have above := fragment_latex bound plain_bound written_bound
      exact List.forall_mem_cons.mpr ⟨(in_front.text high).argument above,
        fragments_latexBounds bounds plain_others listed written_others⟩

end

end Expr

/-! ### Compiling -/

theorem wellBraced_join {es : List Expr} (plain : PlainNames (Expr.readings es))
    {written : List String} (all : es.mapM Expr.latex = .ok written) :
    written = [] ∨ Fragment (String.join written).toList := by
  induction es generalizing written with
  | nil =>
    cases all
    exact .inl rfl
  | cons e es ih =>
    rw [Expr.readings, plainNames_append] at plain
    rw [List.mapM_cons] at all
    obtain ⟨text, first, all⟩ := bind_eq_ok all
    obtain ⟨texts, others, all⟩ := bind_eq_ok all
    cases all
    have fragment := Expr.fragment_latex e plain.1 first
    rw [String.join_cons]
    rcases ih plain.2 others with rfl | fragments
    · exact .inr (by simpa [String.join] using fragment)
    · exact .inr (fragment.text fragments)

theorem mem_of_name_mem_items {tokens : List Token} {text : String}
    (mem : Item.name text ∈ items tokens) : ⟨.name, text⟩ ∈ tokens := by
  obtain ⟨t, kept, item⟩ := List.mem_map.mp mem
  rw [← eq_name_of_item item]
  exact (List.mem_filter.mp kept).1

theorem plain_of_name {text : String} (no_brace : ∀ c ∈ text.toList, ¬IsBrace c) {t : Token}
    (mem : t ∈ tokenize .standard text) (name : t.kind = .name) : Plain t.text := by
  obtain ⟨some_text, inside, apart⟩ :=
    name_of_tokenize mem name
  have backslash : OperatorTable.standard.Boundary '\\' .escape :=
    OperatorTable.boundary_of_mem (by decide)
  refine ⟨some_text, fun c mem_c => no_brace c (inside c mem_c), fun c last escapes => ?_⟩
  subst escapes
  exact apart _ _ backslash (by decide) (by decide) (List.mem_of_mem_getLast? last)

/-- Of a text without braces the output has every closing brace behind its opening one, as many of
one as of the other, and none that is escaped. -/
theorem braces_of_compile {text output : String} (no_brace : ∀ c ∈ text.toList, ¬IsBrace c)
    (compiled : compile .standard text = .ok output) :
    (∀ front, front <+: output.toList → front.count '}' ≤ front.count '{') ∧
      output.toList.count '{' = output.toList.count '}' ∧
      ∀ front c back, output.toList = front ++ '\\' :: c :: back → ¬IsBrace c := by
  suffices braced : WellBraced output.toList by
    refine ⟨braced.covered, braced.balanced, fun front c back split => ?_⟩
    have chain := braced.unescaped
    rw [split, List.isChain_append_cons_cons] at chain
    exact chain.2.1 rfl
  rw [compile_eq] at compiled
  cases read : Expr.readAll (tokenize .standard text) with
  | error cause =>
    rw [compileTokens_of_readAll_eq_error read] at compiled
    cases compiled
  | ok es =>
    obtain ⟨written, all, joined⟩ := compileTokens_of_readAll_eq_ok read
    rw [joined] at compiled
    cases compiled
    obtain ⟨ds, spelled, rfl, -⟩ := (Grammar.readAll_eq_ok_iff _ es).mp read
    have plain : PlainNames (Expr.readings (ds.map Grammar.Phrase.tree)) := by
      intro name mem
      rw [Grammar.readings_of_spells spelled] at mem
      exact plain_of_name no_brace (mem_of_name_mem_items mem) rfl
    rcases wellBraced_join plain all with rfl | fragment
    · exact wellBraced_nil
    · exact fragment.toWellBraced

/-- An escape stands in front of a hat and in front of a script, and each of them brings a brace. -/
theorem braces_of_compile_escapes :
    let output := "\\frac\x7b\\\\hat\x7bx\x7d\x7d\x7by_\x7b\\^\x7b2\x7d\x7d\x7d"
    (∀ c ∈ "\\x@/y_\\^2".toList, ¬IsBrace c) ∧
      compile .standard "\\x@/y_\\^2" = .ok output ∧
      (∀ front, front <+: output.toList → front.count '}' ≤ front.count '{') ∧
      output.toList.count '{' = output.toList.count '}' ∧
      ∀ front c back, output.toList = front ++ '\\' :: c :: back → ¬IsBrace c := by
  intro output
  have no_brace : ∀ c ∈ "\\x@/y_\\^2".toList, ¬IsBrace c := by
    have none : "\\x@/y_\\^2".toList.all (fun c => ¬IsBrace c) = true := by decide +kernel
    simpa only [List.all_eq_true, decide_eq_true_eq] using none
  have compiled : compile .standard "\\x@/y_\\^2" = .ok output := by decide +kernel
  exact ⟨no_brace, compiled, braces_of_compile no_brace compiled⟩

end MathShorthand
