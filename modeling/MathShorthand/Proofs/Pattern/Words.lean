import MathShorthand.Operator.Standard

/-!
# Words

A pattern without repetitions that leaves a choice only at its end describes a few words, each of
them a row of sets of characters. What it takes from a text is the first word that the text begins
with (`Operator.recognize_of_words?`), so nothing after a piece has a say in it
(`Operator.recognize_front`).
-/

namespace MathShorthand

/-- The text begins with one character of each set. -/
def begins : List CharSet → List Char → Bool
  | [], _ => true
  | _ :: _, [] => false
  | set :: word, c :: text => set.contains c && begins word text

theorem begins_append (v w : List CharSet) (text : List Char) :
    begins (v ++ w) text = (begins v text && begins w (text.drop v.length)) := by
  induction v generalizing text with
  | nil => rfl
  | cons set v ih =>
    cases text with
    | nil => rfl
    | cons c text => rw [List.cons_append, begins, begins, ih, Bool.and_assoc]; rfl

theorem begins_map_single (text whole : List Char) :
    begins (text.map CharSet.single) whole = text.isPrefixOf whole := by
  induction text generalizing whole with
  | nil => cases whole <;> rfl
  | cons c text ih =>
    cases whole with
    | nil => rfl
    | cons d whole =>
      have same : (CharSet.single c).contains d = (c == d) := by
        rw [Bool.eq_iff_iff, CharSet.contains_single, beq_iff_eq, eq_comm]
      rw [List.map_cons, begins, ih, same]
      rfl

theorem length_le_of_begins {word : List CharSet} {text : List Char}
    (found : begins word text = true) : word.length ≤ text.length := by
  induction word generalizing text with
  | nil => exact Nat.zero_le _
  | cons set word ih =>
    cases text with
    | nil => cases found
    | cons c text =>
      rw [begins, Bool.and_eq_true] at found
      exact Nat.succ_le_succ (ih found.2)

theorem begins_of_append {word : List CharSet} {u : List Char} (v : List Char)
    (fits : word.length ≤ u.length) : begins word (u ++ v) = begins word u := by
  induction word generalizing u with
  | nil => rfl
  | cons set word ih =>
    cases u with
    | nil => cases fits
    | cons c u =>
      rw [List.cons_append, begins, begins, ih (Nat.le_of_succ_le_succ fits)]

theorem begins_mono {word : List CharSet} {u : List Char} (v : List Char)
    (found : begins word u = true) : begins word (u ++ v) = true := by
  rwa [begins_of_append v (length_le_of_begins found)]

theorem exists_contains_of_mem_take {word : List CharSet} {text : List Char}
    (found : begins word text = true) : ∀ c ∈ text.take word.length, ∃ set ∈ word,
      set.contains c = true := by
  induction word generalizing text with
  | nil => simp
  | cons set word ih =>
    cases text with
    | nil => simp
    | cons d text =>
      rw [begins, Bool.and_eq_true] at found
      rw [List.length_cons, List.take_succ_cons]
      intro c mem
      rcases List.mem_cons.mp mem with rfl | mem
      · exact ⟨set, List.mem_cons_self, found.1⟩
      · obtain ⟨other, listed, holds⟩ := ih found.2 c mem
        exact ⟨other, List.mem_cons_of_mem set listed, holds⟩

theorem exists_contains_of_begins {word : List CharSet} {text : List Char}
    (found : begins word text = true) : ∀ set ∈ word, ∃ c ∈ text, set.contains c = true := by
  induction word generalizing text with
  | nil => simp
  | cons set word ih =>
    cases text with
    | nil => cases found
    | cons c text =>
      rw [begins, Bool.and_eq_true] at found
      refine List.forall_mem_cons.mpr ⟨⟨c, List.mem_cons_self, found.1⟩, fun other listed => ?_⟩
      obtain ⟨d, mem, holds⟩ := ih found.2 other listed
      exact ⟨d, List.mem_cons_of_mem c mem, holds⟩

namespace Pattern

/-- The one word that the pattern describes, if it leaves no choice at all. -/
def word? : Pattern → Option (List CharSet)
  | empty => some []
  | literal text => some (text.map CharSet.single)
  | one _ set => some [set]
  | group a => a.word?
  | seq a b => do some ((← a.word?) ++ (← b.word?))
  | start | alt _ _ | opt _ _ | star _ _ | plus _ _ => none

/-- The words that the pattern describes in order of preference, if it leaves no choice but one at
its end. -/
def words? : Pattern → Option (List (List CharSet))
  | alt a b => do some [← a.word?, ← b.word?]
  | seq a b => do
    let front ← a.word?
    let words ← b.words?
    some (words.map (front ++ ·))
  | p => p.word?.map ([·])

theorem run_of_word? {p : Pattern} {word : List CharSet} (known : p.word? = some word)
    (first : Nat) (next : Continuation) (spot : Spot) (tried : Tried) :
    run p first next spot tried =
      if begins word spot.rest then
        next ⟨spot.offset + word.length, spot.rest.drop word.length⟩ tried
      else .failed tried := by
  induction p generalizing word first next spot with
  | empty =>
    cases known
    rfl
  | literal text =>
    cases known
    rw [run, begins_map_single, List.length_map]
  | one folded set =>
    cases known
    obtain ⟨offset, rest⟩ := spot
    cases rest with
    | nil => rfl
    | cons c rest => simp only [run, begins, Bool.and_true, List.length_singleton, List.drop_one,
        List.tail_cons]
  | group a ih => exact ih known first next spot
  | seq a b ih_a ih_b =>
    obtain ⟨v, known_a, more⟩ := Option.bind_eq_some_iff.mp known
    obtain ⟨w, known_b, same⟩ := Option.bind_eq_some_iff.mp more
    cases same
    rw [run, ih_a known_a, ih_b known_b, begins_append, List.length_append, List.drop_drop,
      Nat.add_assoc]
    cases begins v spot.rest with
    | false => rfl
    | true => rw [if_pos rfl, Bool.true_and]
  | start | alt | opt | star | plus => cases known

theorem stop?_run_of_word? {p : Pattern} {word : List CharSet} (known : p.word? = some word)
    (first : Nat) (spot : Spot) (tried : Tried) :
    (run p first (fun spot _ => .matched spot.offset) spot tried).stop? =
      ([word].find? (begins · spot.rest)).map (spot.offset + ·.length) := by
  rw [run_of_word? known, List.find?_singleton]
  cases begins word spot.rest <;> rfl

theorem stop?_run_of_words? {p : Pattern} {words : List (List CharSet)}
    (known : p.words? = some words) (first total : Nat) (spot : Spot) :
    (run p first (fun spot _ => .matched spot.offset) spot (.none total)).stop? =
      (words.find? (begins · spot.rest)).map (spot.offset + ·.length) := by
  induction p generalizing words first spot with
  | alt a b =>
    obtain ⟨v, known_a, more⟩ := Option.bind_eq_some_iff.mp known
    obtain ⟨w, known_b, same⟩ := Option.bind_eq_some_iff.mp more
    cases same
    -- no choice is met before this one, so none has been tried
    rw [run, choose, Tried.contains_none, if_neg Bool.false_ne_true, run_of_word? known_a,
      List.find?_cons]
    cases begins v spot.rest with
    | true => rfl
    | false => exact stop?_run_of_word? known_b _ spot _
  | seq a b ih_a ih_b =>
    obtain ⟨front, known_a, more⟩ := Option.bind_eq_some_iff.mp known
    obtain ⟨ends, known_b, same⟩ := Option.bind_eq_some_iff.mp more
    cases same
    simp only [run, run_of_word? known_a, List.find?_map, Function.comp_def, begins_append]
    cases begins front spot.rest with
    | true =>
      rw [if_pos rfl, ih_b known_b]
      simp only [Bool.true_and, Option.map_map, Function.comp_def, List.length_append,
        Nat.add_assoc]
    | false =>
      have no_end : ends.find? (fun _ => false) = none := List.find?_eq_none.mpr (by simp)
      simp only [Bool.false_and, no_end]
      rfl
  | _ =>
    obtain ⟨word, one_word, rfl⟩ := Option.map_eq_some_iff.mp known
    exact stop?_run_of_word? one_word first spot _

theorem find?_of_words? {p : Pattern} {words : List (List CharSet)}
    (known : p.words? = some words) (text : List Char) :
    (seq start p).find? text = (words.find? (begins · text)).map (text.take ·.length) := by
  have stop : (seq start p).stop? ⟨0, text⟩ =
      (words.find? (begins · text)).map (0 + ·.length) :=
    stop?_run_of_words? known 0 (0 + p.choices) ⟨0, text⟩
  unfold find? findFrom?
  rw [stop]
  cases words.find? (begins · text) with
  | some word => simp
  -- a pattern that asks for the start is tried at no other place
  | none => cases text <;> rfl

end Pattern

namespace Operator

/-- The words that the operator is written as, where its pattern is made of such. -/
def words? (op : Operator Pattern) : Option (List (List CharSet)) :=
  match op.pattern with
  | .seq .start p => p.words?
  | _ => none

variable {op : Operator Pattern} {words : List (List CharSet)} {u v text piece : List Char}

variable (known : op.words? = some words) (some_text : ∀ w ∈ words, w ≠ [])
include known some_text

/-- The operator takes the first of its words that the text begins with. -/
theorem recognize_of_words? :
    op.recognize text = (words.find? (begins · text)).map (text.take ·.length) := by
  obtain ⟨kind, breaksNames, pattern⟩ := op
  unfold words? at known
  split at known
  · next p same =>
    subst same
    rw [recognize, Regex.find?_pattern, Pattern.find?_of_words? known]
    cases found : words.find? (begins · text) with
    | none => rfl
    | some word =>
      have pos := List.length_pos_iff.mpr (some_text word (List.mem_of_find?_eq_some found))
      have length := length_le_of_begins (List.find?_some (p := (begins · text)) found)
      have some_piece : (text.take word.length).isEmpty = false := by
        rw [← Bool.not_eq_true, List.isEmpty_iff_length_eq_zero, List.length_take_of_le length]
        exact Nat.ne_of_gt pos
      rw [Option.map_some, Option.filter_some, some_piece]
      rfl
  · cases known

theorem recognize_ne_none_iff :
    op.recognize text ≠ none ↔ ∃ w ∈ words, begins w text = true := by
  rw [recognize_of_words? known some_text, ne_eq, Option.map_eq_none_iff, List.find?_eq_none]
  simp only [Classical.not_forall, Classical.not_not, exists_prop]

/-- What follows a piece is not looked at. -/
theorem recognize_front (recognized : op.recognize (u ++ v) = some piece) (fits : piece <+: u) :
    op.recognize u = some piece := by
  rw [recognize_of_words? known some_text] at recognized ⊢
  obtain ⟨word, first, rfl⟩ := Option.map_eq_some_iff.mp recognized
  obtain ⟨found, before, after, rfl, missed⟩ := List.find?_eq_some_iff_append.mp first
  have length := length_le_of_begins found
  have within : word.length ≤ u.length := by
    have le := fits.length_le
    rwa [List.length_take_of_le length] at le
  have same : (u ++ v).take word.length = u.take word.length := List.take_append_of_le_length within
  refine Option.map_eq_some_iff.mpr ⟨word, ?_, same.symm⟩
  refine List.find?_eq_some_iff_append.mpr ⟨?_, before, after, rfl, ?_⟩
  · rwa [begins_of_append v within] at found
  · intro w mem
    have no := missed w mem
    rw [Bool.not_eq_true'] at no ⊢
    exact Bool.eq_false_iff.mpr fun yes => Bool.eq_false_iff.mp no (begins_mono v yes)

theorem recognize_front_eq_none (missed : op.recognize (u ++ v) = none) :
    op.recognize u = none := by
  rw [recognize_of_words? known some_text, Option.map_eq_none_iff, List.find?_eq_none] at missed ⊢
  intro word mem found
  exact missed word mem (begins_mono v found)

theorem exists_begins_of_recognize (recognized : op.recognize text = some piece) :
    ∃ w ∈ words, begins w text = true ∧ piece = text.take w.length ∧ piece.length = w.length := by
  rw [recognize_of_words? known some_text] at recognized
  obtain ⟨word, first, rfl⟩ := Option.map_eq_some_iff.mp recognized
  have found : begins word text = true := List.find?_some (p := (begins · text)) first
  exact ⟨word, List.mem_of_find?_eq_some first, found, rfl,
    List.length_take_of_le (length_le_of_begins found)⟩

/-- A piece is as long as one of the words, and each of its characters is in a set of that. -/
theorem exists_word_of_recognize (recognized : op.recognize text = some piece) :
    ∃ w ∈ words, piece.length = w.length ∧ ∀ c ∈ piece, ∃ set ∈ w, set.contains c = true := by
  obtain ⟨word, listed, found, rfl, length⟩ :=
    op.exists_begins_of_recognize known some_text recognized
  exact ⟨word, listed, length, exists_contains_of_mem_take found⟩

end Operator

end MathShorthand
