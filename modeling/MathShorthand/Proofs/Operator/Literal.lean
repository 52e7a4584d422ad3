import MathShorthand.Proofs.Pattern.Words

/-!
# Literal text

A symbol is its text escaped, and a keyword the same in brackets in which case does not matter. The
pattern that such a text is read as leaves no choice, so it has one word
(`Pattern.exists_word?_literalPattern`), whatever characters the text is made of. What the operators
recognize is then a comparison with the beginning of the text
(`Operator.recognize_symbol_and_keyword`).
-/

namespace MathShorthand

namespace Pattern

/-! ### Patterns in a row -/

/-- The one word of several patterns in a row, if they leave no choice at all. -/
def row? : List Pattern → Option (List CharSet)
  | [] => some []
  | p :: ps => do some ((← p.word?) ++ (← row? ps))

theorem row?_append (ps qs : List Pattern) :
    row? (ps ++ qs) = (do some ((← row? ps) ++ (← row? qs))) := by
  induction ps with
  | nil => simp [row?]
  | cons p ps ih =>
    rw [List.cons_append, row?, row?, ih]
    cases p.word? <;> cases row? ps <;> cases row? qs <;> simp

theorem row?_parts (p : Pattern) : row? p.parts = p.word? := by
  induction p with
  | empty => rfl
  | seq a b ih_a ih_b =>
    rw [parts, row?_append, ih_a, ih_b]
    rfl
  | _ => simp [parts, row?]

theorem row?_consPart (p : Pattern) (ps : List Pattern) : row? (consPart p ps) = row? (p :: ps) := by
  unfold consPart
  split
  · next a b ps =>
    simp only [row?, word?]
    cases row? ps <;> simp
  · rfl

theorem word?_ofParts (ps : List Pattern) : (ofParts ps).word? = row? ps := by
  fun_induction ofParts ps with
  | case1 => rfl
  | case2 p => simp [row?]
  | case3 p ps some_parts ih =>
    rw [word?, ih]
    rfl

theorem row?_joined (ps : List Pattern) : row? ((ps.flatMap parts).foldr consPart []) = row? ps := by
  have texts (qs : List Pattern) : row? (qs.foldr consPart []) = row? qs := by
    induction qs with
    | nil => rfl
    | cons q qs ih => rw [List.foldr_cons, row?_consPart, row?, row?, ih]
  rw [texts]
  induction ps with
  | nil => rfl
  | cons p ps ih =>
    rw [List.flatMap_cons, row?_append, row?_parts, ih]
    rfl

theorem word?_inOrder (ps : List Pattern) : (inOrder ps).word? = row? ps := by
  rw [inOrder, word?_ofParts, row?_joined]

theorem oneOf_singleton_of_word? {p : Pattern} {word : List CharSet} (known : p.word? = some word) :
    oneOf [p] = p := by
  cases p with
  | alt a b => cases known
  | _ => rfl

theorem words?_of_word? {p : Pattern} {word : List CharSet} (known : p.word? = some word) :
    p.words? = some [word] := by
  induction p generalizing word with
  | alt a b => cases known
  | seq a b ih_a ih_b =>
    obtain ⟨v, known_a, more⟩ := Option.bind_eq_some_iff.mp known
    obtain ⟨w, known_b, same⟩ := Option.bind_eq_some_iff.mp more
    cases same
    rw [words?, known_a, ih_b known_b]
    rfl
  | _ =>
    rw [words?, known]
    · rfl
    all_goals nofun

theorem word?_row_singleton {p : Pattern} {word : List CharSet} (known : p.word? = some word) :
    (oneOf [inOrder [p]]).word? = some word := by
  have row : (inOrder [p]).word? = some word := by
    rw [word?_inOrder, row?, known]
    simp [row?]
  rwa [oneOf_singleton_of_word? row]

/-- A pattern for one word, put at the start of the text. -/
theorem find?_at_start {p : Pattern} {word : List CharSet} (known : p.word? = some word)
    (text : List Char) :
    (oneOf [inOrder [start, p]]).find? text =
      if begins word text then some (text.take word.length) else none := by
  obtain ⟨tail, starts, row⟩ : ∃ tail, inOrder [start, p] = ofParts (start :: tail) ∧
      row? tail = some word := by
    refine ⟨([p].flatMap parts).foldr consPart [], rfl, ?_⟩
    rw [row?_joined, row?, known]
    simp [row?]
  rw [starts]
  -- an empty word leaves the start alone in the row, which is no pattern with a word
  cases tail with
  | nil =>
    cases row
    cases text <;> rfl
  | cons q tail =>
    have whole : oneOf [ofParts (start :: q :: tail)] = seq start (ofParts (q :: tail)) := rfl
    rw [whole, find?_of_words? (words?_of_word? ((word?_ofParts _).trans row)),
      List.find?_singleton]
    split <;> rfl

/-! ### Literal text between brackets -/

/-- What a character is read as. -/
def charPart (folded : Bool) (c : Char) : Part :=
  ⟨ofSet folded (if folded then .eitherCase (.single c) else .single c), 0⟩

/-- The pattern that a text in its literal marks is read as. -/
def literalPattern (folded : Bool) (text : List Char) : Pattern :=
  inOrder (text.map fun c => (charPart folded c).pattern)

theorem ofSigns?_chars (text : List Char) (signs : List Sign) (inner : Opened)
    (outer : List (Bracket × Opened)) :
    ofSigns? (text.map Sign.char ++ signs) inner outer =
      ofSigns? signs
        { inner with parts := (text.map (charPart inner.folded)).reverse ++ inner.parts }
        outer := by
  induction text generalizing inner with
  | nil => rfl
  | cons c text ih =>
    have step : ofSigns? (.char c :: (text.map Sign.char ++ signs)) inner outer =
        ofSigns? (text.map Sign.char ++ signs) (inner.push (charPart inner.folded c)) outer := rfl
    rw [List.map_cons, List.cons_append, step, ih]
    simp [Opened.push]

/-- A character that may be in either case where `folded`, in a form in which the case is lost. -/
def caseKey (folded : Bool) (c : Char) : Char := if folded then c.toLower else c

theorem exists_word?_ofSet (folded : Bool) {set : CharSet} {c : Char}
    (within : set.contains c = true) :
    ∃ other, (ofSet folded set).word? = some [other] ∧ ∀ d, other.contains d = set.contains d := by
  unfold ofSet
  split
  -- a set of one character is written as literal text
  · next c' only =>
    obtain ⟨runs⟩ := set
    unfold CharSet.only? at only
    split at only
    · next low high same =>
      obtain rfl : runs = [(low, high)] := same
      split at only
      · next single =>
        subst single
        cases only
        have bounds {d : Char} :
            CharSet.contains ⟨[(low, low)]⟩ d = true ↔ low ≤ d.toNat ∧ d.toNat ≤ low := by
          simp [CharSet.contains, Text.inRanges]
        have code : c.toNat = low := by
          have := bounds.mp within
          omega
        refine ⟨.single (Char.ofNat low), rfl, fun d => ?_⟩
        rw [Bool.eq_iff_iff, CharSet.contains_single, bounds, ← code, Char.ofNat_toNat,
          ← Char.toNat_inj]
        omega
      · cases only
    · cases only
  · exact ⟨set, rfl, fun d => rfl⟩

theorem exists_word?_charPart (folded : Bool) (c : Char) :
    ∃ set, (charPart folded c).pattern.word? = some [set] ∧
      ∀ d, set.contains d = true ↔ caseKey folded d = caseKey folded c := by
  cases folded with
  | true =>
    have holds (d : Char) := CharSet.contains_eitherCase_single c d
    obtain ⟨set, word, same⟩ := exists_word?_ofSet true ((holds c).mpr rfl)
    refine ⟨set, word, fun d => ?_⟩
    rw [same, holds]
    rfl
  | false =>
    have holds (d : Char) := CharSet.contains_single c d
    obtain ⟨set, word, same⟩ := exists_word?_ofSet false ((holds c).mpr rfl)
    refine ⟨set, word, fun d => ?_⟩
    rw [same, holds]
    rfl

/-- The word of a literal text begins a text just if the two agree up to case, where it does not
matter. -/
theorem exists_word?_literalPattern (folded : Bool) (text : List Char) :
    ∃ word, (literalPattern folded text).word? = some word ∧ word.length = text.length ∧
      ∀ whole, begins word whole = true ↔
        text.map (caseKey folded) <+: whole.map (caseKey folded) := by
  rw [literalPattern, word?_inOrder]
  induction text with
  | nil => exact ⟨[], rfl, rfl, fun whole => iff_of_true rfl List.nil_prefix⟩
  | cons c text ih =>
    obtain ⟨word, known, length, begun⟩ := ih
    obtain ⟨set, first, holds⟩ := exists_word?_charPart folded c
    refine ⟨set :: word, ?_, congrArg (· + 1) length, fun whole => ?_⟩
    · rw [List.map_cons, row?, first, known]
      rfl
    · cases whole with
      | nil => simp [begins]
      | cons d whole =>
        rw [begins, Bool.and_eq_true, begun, holds, List.map_cons, List.map_cons,
          List.cons_prefix_cons, eq_comm]

/-- Parts in a row with nothing beside them. -/
def rowPart (parts : List Part) : Part := .joined oneOf [.joined inOrder parts]

theorem pattern_rowPart (parts : List Part) :
    (rowPart parts).pattern = oneOf [inOrder (parts.map Part.pattern)] := rfl

theorem depth_rowPart_le (parts : List Part) : (rowPart parts).depth ≤ Part.deepest parts + 1 := by
  have row : (Part.joined inOrder parts).depth ≤ Part.deepest parts + 1 := by
    simp only [Part.joined]
    split <;> omega
  exact Nat.max_le.mpr ⟨row, Nat.zero_le _⟩

theorem pattern_plain (p : Part) : (p.bracketed .plain).pattern = p.pattern := rfl

theorem pattern_folded (p : Part) : (p.bracketed .folded).pattern = p.pattern := rfl

theorem deepest_charPart (folded : Bool) (text : List Char) :
    Part.deepest (text.map (charPart folded)) = 0 := by
  induction text with
  | nil => rfl
  | cons c text ih =>
    rw [List.map_cons, Part.deepest, List.foldr_cons, ← Part.deepest, ih]
    rfl

/-- What a literal text is read as between brackets. -/
def literalPart (folded : Bool) (text : List Char) : Part := rowPart (text.map (charPart folded))

theorem depth_literalPart_le (folded : Bool) (text : List Char) :
    (literalPart folded text).depth ≤ 1 := by
  have le := depth_rowPart_le (text.map (charPart folded))
  rwa [deepest_charPart] at le

theorem pattern_literalPart (folded : Bool) (text : List Char) :
    (literalPart folded text).pattern = literalPattern folded text := by
  obtain ⟨word, known, -⟩ := exists_word?_literalPattern folded text
  rw [← oneOf_singleton_of_word? known, literalPart, pattern_rowPart, List.map_map]
  rfl

/-- A literal text in brackets is one part more of what is around them. -/
theorem ofSigns?_bracketed (bracket : Bracket) (text : List Char) (signs : List Sign)
    (inner : Opened) (outer : List (Bracket × Opened)) :
    ofSigns? (.opening bracket :: (text.map Sign.char ++ .closing :: signs)) inner outer =
      ofSigns? signs
        (inner.push ((literalPart (inner.folded || bracket = .folded) text).bracketed bracket))
        outer := by
  rw [ofSigns?, ofSigns?_chars, ofSigns?]
  simp [Opened.body, Opened.branch, literalPart, rowPart]

/-- Signs that make the start of the text with one part in brackets after it. -/
theorem read?_at_start {text : List Char} {marks : List Mark} {signs : List Sign} {part : Part}
    (marked : marks? text = some marks) (signed : signs? marks = some signs)
    (parsed : ofSigns? signs { folded := false } [] =
      some (rowPart [⟨.start, 0⟩, part.bracketed .plain]))
    (shallow : part.depth + 2 ≤ maxNesting) :
    read? text = some (oneOf [inOrder [start, part.pattern]]) := by
  have depth : (rowPart [⟨.start, 0⟩, part.bracketed .plain]).depth ≤ maxNesting := by
    refine Nat.le_trans (depth_rowPart_le _) ?_
    simp only [Part.deepest, List.foldr_cons, List.foldr_nil, Part.bracketed]
    omega
  have read : read? text = some (rowPart [⟨.start, 0⟩, part.bracketed .plain]).pattern := by
    simp [read?, marked, signed, parsed, depth]
  rwa [pattern_rowPart, List.map_cons, List.map_cons, List.map_nil, pattern_plain] at read

/-- A literal text is read as a pattern for its word at the start of the text. -/
theorem exists_read?_literal (text : List Char) :
    ∃ p, read? ("^(?:".toList ++ escape text ++ [')']) = some (oneOf [inOrder [start, p]]) ∧
      p.word? = (literalPattern false text).word? := by
  have marked : marks? ("^(?:".toList ++ escape text ++ [')']) =
      some ([.plain '^', .plain '(', .plain '?', .plain ':'] ++
        (text.map literalMark ++ [.plain ')'])) := by
    simp [marks?, marks?_escape_append]
  have signed : signs? ([.plain '^', .plain '(', .plain '?', .plain ':'] ++
        (text.map literalMark ++ [.plain ')'])) =
      some (.start :: .opening .plain :: (text.map Sign.char ++ [.closing])) := by
    simp [signs?, signs?_literal_append]
  have parsed : ofSigns? (.start :: .opening .plain :: (text.map Sign.char ++ [.closing]))
      { folded := false } [] =
        some (rowPart [⟨.start, 0⟩, (literalPart false text).bracketed .plain]) :=
    ofSigns?_bracketed .plain text [] { folded := false, parts := [⟨.start, 0⟩] } []
  have shallow : (literalPart false text).depth + 2 ≤ maxNesting := by
    have le := depth_literalPart_le false text
    simp only [maxNesting]
    omega
  refine ⟨_, read?_at_start marked signed parsed shallow, ?_⟩
  rw [pattern_literalPart]

/-- The same with brackets around it in which case does not matter. -/
theorem exists_read?_folded (text : List Char) :
    ∃ p, read? ("^(?:".toList ++ ("(?i-u:".toList ++ escape text ++ [')']) ++ [')']) =
        some (oneOf [inOrder [start, p]]) ∧
      p.word? = (literalPattern true text).word? := by
  have marked : marks? ("^(?:".toList ++ ("(?i-u:".toList ++ escape text ++ [')']) ++ [')']) =
      some ([.plain '^', .plain '(', .plain '?', .plain ':', .plain '(', .plain '?', .plain 'i',
        .plain '-', .plain 'u', .plain ':'] ++
        (text.map literalMark ++ [.plain ')', .plain ')'])) := by
    simp [marks?, marks?_escape_append]
  have signed : signs? ([.plain '^', .plain '(', .plain '?', .plain ':', .plain '(', .plain '?',
        .plain 'i', .plain '-', .plain 'u', .plain ':'] ++
        (text.map literalMark ++ [.plain ')', .plain ')'])) =
      some (.start :: .opening .plain :: .opening .folded ::
        (text.map Sign.char ++ [.closing, .closing])) := by
    simp [signs?, signs?_literal_append]
  have parsed : ofSigns? (.start :: .opening .plain :: .opening .folded ::
      (text.map Sign.char ++ [.closing, .closing])) { folded := false } [] =
        some (rowPart [⟨.start, 0⟩,
          (rowPart [(literalPart true text).bracketed .folded]).bracketed .plain]) :=
    ofSigns?_bracketed .folded text [.closing] { folded := false }
      [(.plain, { folded := false, parts := [⟨.start, 0⟩] })]
  have shallow : (rowPart [(literalPart true text).bracketed .folded]).depth + 2 ≤ maxNesting := by
    have inside := depth_literalPart_le true text
    refine Nat.le_trans (Nat.add_le_add_right (depth_rowPart_le _) 2) ?_
    simp only [Part.deepest, List.foldr_cons, List.foldr_nil, Part.bracketed, maxNesting]
    omega
  refine ⟨_, read?_at_start marked signed parsed shallow, ?_⟩
  obtain ⟨word, known, -⟩ := exists_word?_literalPattern true text
  rw [pattern_rowPart, List.map_cons, List.map_nil, pattern_folded, pattern_literalPart,
    word?_row_singleton known, known]

end Pattern

namespace Operator

/-- An operator that takes one word, which has to stand at the start of the text. -/
theorem recognize_at_start (kind : Kind) (breaksNames : Bool) {p : Pattern} {word : List CharSet}
    (known : p.word? = some word) (text : List Char) :
    recognize ⟨kind, breaksNames, Pattern.oneOf [Pattern.inOrder [.start, p]]⟩ text =
      if word ≠ [] ∧ begins word text = true then some (text.take word.length) else none := by
  rw [recognize, Regex.find?_pattern, Pattern.find?_at_start known]
  by_cases begun : begins word text = true
  · have some_piece : (text.take word.length).isEmpty = decide (word = []) := by
      have le := length_le_of_begins begun
      rw [Bool.eq_iff_iff, List.isEmpty_iff_length_eq_zero, List.length_take_of_le le,
        decide_eq_true_eq, List.length_eq_zero_iff]
    rw [if_pos begun, Option.filter_some, some_piece]
    by_cases empty : word = [] <;> simp [begun, empty]
  · rw [if_neg begun, if_neg fun both => begun both.2]
    rfl

/-- What is written as literal text takes the texts that begin with it, up to case where `folded`.
Nothing is taken where that text is empty. -/
theorem recognize_literal (kind : Kind) (breaksNames folded : Bool) {p : Pattern} {word : List Char}
    (known : p.word? = (Pattern.literalPattern folded word).word?) (text : List Char) :
    recognize ⟨kind, breaksNames, Pattern.oneOf [Pattern.inOrder [.start, p]]⟩ text =
      if word ≠ [] ∧ word.map (Pattern.caseKey folded) <+: text.map (Pattern.caseKey folded)
      then some (text.take word.length) else none := by
  obtain ⟨sets, literal, length, begun⟩ := Pattern.exists_word?_literalPattern folded word
  have empty : sets = [] ↔ word = [] := by
    rw [← List.length_eq_zero_iff, length, List.length_eq_zero_iff]
  rw [recognize_at_start kind breaksNames (known.trans literal), length]
  simp only [ne_eq, empty, begun]

/-- A symbol takes just its own text where a text begins with it, and a keyword takes as many
characters where they are its own up to the case of ASCII letters. Any text can be either, but
nothing is recognized by an empty one. -/
theorem recognize_symbol_and_keyword (kind : Kind) (word : String) :
    (∃ op : Operator Pattern, symbol? kind word = some op ∧ op.kind = kind ∧ op.breaksNames = true ∧
      ∀ text, op.recognize text =
        if word ≠ "" ∧ word.toList <+: text then some word.toList else none) ∧
    ∃ op : Operator Pattern, keyword? kind word = some op ∧ op.kind = kind ∧ op.breaksNames = false ∧
      ∀ text, op.recognize text =
        if word ≠ "" ∧ (text.take word.length).map Char.toLower = word.toList.map Char.toLower
        then some (text.take word.length) else none := by
  have empty : word = "" ↔ word.toList = [] := String.toList_eq_nil_iff.symm
  constructor
  · obtain ⟨p, read, known⟩ := Pattern.exists_read?_literal word.toList
    refine ⟨⟨kind, true, Pattern.oneOf [Pattern.inOrder [.start, p]]⟩, ?_, rfl, rfl, fun text => ?_⟩
    · rw [symbol?, ofPattern?, Regex.read?_pattern,
        @String.toList_ofList (Pattern.escape _), read]
      rfl
    · have same : Pattern.caseKey false = id := rfl
      rw [recognize_literal kind true false known, same, List.map_id, List.map_id]
      refine ite_congr (by rw [ne_eq, ne_eq, empty]) (fun begun => ?_) fun _ => rfl
      rw [← List.prefix_iff_eq_take.mp begun.2]
  · obtain ⟨p, read, known⟩ := Pattern.exists_read?_folded word.toList
    refine ⟨⟨kind, false, Pattern.oneOf [Pattern.inOrder [.start, p]]⟩, ?_, rfl, rfl, fun text => ?_⟩
    · rw [keyword?, ofPattern?, Regex.read?_pattern,
        @String.toList_ofList ("(?i-u:".toList ++ _ ++ _), read]
      rfl
    · have same : Pattern.caseKey true = Char.toLower := rfl
      rw [recognize_literal kind false true known, same, String.length_toList]
      refine ite_congr ?_ (fun _ => rfl) fun _ => rfl
      rw [ne_eq, ne_eq, empty, List.prefix_iff_eq_take, List.length_map, ← List.map_take,
        String.length_toList, eq_comm (a := word.toList.map _)]

example : ((symbol? .times "(*|").bind fun op : Operator Pattern => op.recognize "(*|)".toList) =
    some ['(', '*', '|'] := by decide +kernel

end Operator

end MathShorthand
