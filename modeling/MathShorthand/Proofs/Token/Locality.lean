import MathShorthand.Parser.Outcome
import MathShorthand.Proofs.Token.Respacing

/-!
# Where the standard operators part a text

A character parts all texts if what stands in front of it and what stands behind it are cut into
pieces apart. Of the standard operators these are the blanks and those that go into no longer one
(`parts_standard_iff`). Any other character is taken together with its neighbours somewhere.
-/

namespace MathShorthand

open Text (isBlank)

variable {R : Type} [Regex R]

namespace OperatorTable

/-- Wherever the character stands, it is a piece of `kind` by itself, and the pieces in front of it
and behind it are those of the two texts alone. -/
def Parts (table : OperatorTable R) [table.TakesPrefixes] (c : Char) (kind : Kind) : Prop :=
  ∀ u v, piecesOf table (u ++ c :: v) =
    piecesOf table u ++ ⟨kind, String.ofList [c]⟩ :: piecesOf table v

variable {table : OperatorTable R} [table.TakesPrefixes] {c : Char} {kind : Kind}

theorem Boundary.parts (boundary : table.Boundary c kind) : table.Parts c kind :=
  piecesOf_append_boundary boundary

theorem Parts.kind_unique {kind' : Kind} (parts : table.Parts c kind) (parts' : table.Parts c kind') :
    kind = kind' := by
  have same := (parts [] []).symm.trans (parts' [] [])
  rw [piecesOf_nil, List.nil_append, List.nil_append] at same
  exact congrArg Token.kind (List.cons.inj same).1

/-- A character that parts all texts ends a name in front of it. -/
theorem Parts.breaks (parts : standard.Parts c kind) : standard.Breaks [c] := by
  have parted := partedByBlanks_standard
  have name : piecesOf standard ['x'] = [⟨.name, "x"⟩] := by decide +kernel
  have pieces := parts ['x'] []
  rw [name, piecesOf_nil] at pieces
  obtain ⟨-, first, -⟩ := segments_iff.mpr pieces.symm
  obtain ⟨-, ends⟩ := first.name_cases parted rfl
  have behind : written ([].append [⟨kind, String.ofList [c]⟩]) = [c] := by
    change written [⟨kind, String.ofList [c]⟩] = [c]
    rw [written_cons, written_nil, List.append_nil, String.toList_ofList]
  rw [behind] at ends
  exact ends.resolve_left (List.cons_ne_nil c [])

/-- If the word is for one character, this is a blank or one of `chars`. -/
def SinglesIn (chars : List Char) (word : List CharSet) : Prop :=
  word ≠ [] ∧ (word.length = 1 → ∀ set ∈ word, set = .blank ∨ set ∈ chars.map .single)

instance (chars : List Char) (word : List CharSet) : Decidable (SinglesIn chars word) :=
  inferInstanceAs (Decidable (_ ∧ (_ → _)))

/-- The operators of one character that end names, and the blanks. -/
theorem cases_of_breaks (breaks : standard.Breaks [c]) :
    isBlank c = true ∨ c ∈ standardBoundaries.map Prod.fst ∨ c = '=' ∨ c = '*' := by
  have spelled : ∀ op ∈ standard.operators, op.breaksNames = true → ∃ words ∈ op.words?,
      ∀ w ∈ words, SinglesIn ('=' :: '*' :: standardBoundaries.map Prod.fst) w := by
    decide +kernel
  obtain ⟨op, mem, breaking, found⟩ := breaks
  obtain ⟨words, known, singles⟩ := spelled op mem breaking
  obtain ⟨piece, recognized⟩ := Option.ne_none_iff_exists'.mp found
  obtain ⟨some_piece, begun⟩ := takesPrefixes_standard.prefix_of_recognize op mem _ _ recognized
  obtain rfl : piece = [c] := begun.eq_of_length_le (List.length_pos_iff.mpr some_piece)
  have some_text (w) (listed : w ∈ words) := (singles w listed).1
  obtain ⟨w, listed, length, sets⟩ := op.exists_word_of_recognize known some_text recognized
  obtain ⟨set, mem_set, holds⟩ := sets c List.mem_cons_self
  rcases (singles w listed).2 length.symm set mem_set with rfl | single
  · exact .inl holds
  · obtain ⟨d, mem_d, rfl⟩ := List.mem_map.mp single
    obtain rfl := (CharSet.contains_single d c).mp holds
    rcases List.mem_cons.mp mem_d with equal | mem_d
    · exact .inr (.inr (.inl equal))
    · rcases List.mem_cons.mp mem_d with times | mem_d
      · exact .inr (.inr (.inr times))
      · exact .inr (.inl mem_d)

theorem Parts.length_append (parts : table.Parts c kind) (u : List Char) :
    (piecesOf table (u ++ [c])).length = (piecesOf table u).length + 1 := by
  rw [parts u [], piecesOf_nil, List.length_append, List.length_singleton]

/-- Behind the right character `=` and `*` are parts of longer operators. -/
theorem not_parts_of_longer (longer : c = '=' ∨ c = '*') (kind : Kind) :
    ¬standard.Parts c kind := by
  intro parts
  rcases longer with rfl | rfl
  · exact absurd (parts.length_append ['>']) (by decide +kernel)
  · exact absurd (parts.length_append ['*']) (by decide +kernel)

/-- Exactly the blanks and the standard operators that go into no longer one part all texts. -/
theorem parts_standard_iff (c : Char) (kind : Kind) :
    standard.Parts c kind ↔
      (c, kind) ∈ standardBoundaries ∨ isBlank c = true ∧ kind = .blank := by
  constructor
  · intro parts
    rcases cases_of_breaks parts.breaks with blank | listed | longer
    · have same := parts.kind_unique (partedByBlanks_standard.boundary blank).parts
      exact .inr ⟨blank, same⟩
    · obtain ⟨⟨d, kind'⟩, mem, rfl⟩ := List.mem_map.mp listed
      obtain rfl := parts.kind_unique (boundary_of_mem mem).parts
      exact .inl mem
    · exact absurd parts (not_parts_of_longer longer kind)
  · rintro (listed | ⟨blank, rfl⟩)
    · exact (boundary_of_mem listed).parts
    · exact (partedByBlanks_standard.boundary blank).parts

end OperatorTable

/-! ### Tokens -/

theorem tokens_append_boundary {table : OperatorTable R} [table.TakesPrefixes] {c : Char} {k : Kind}
    (boundary : table.Boundary c k) (not_name : k ≠ .name) (not_blank : k ≠ .blank)
    (u v : List Char) :
    mergeNames (piecesOf table (u ++ c :: v)) =
      mergeNames (piecesOf table u) ++
        ⟨k, String.ofList [c]⟩ :: mergeNames (piecesOf table v) := by
  rw [piecesOf_append_boundary boundary]
  exact mergeNames_append_other (Token.inRun_of_other not_name not_blank)

/-- A boundary at the front of a text that comes behind another starts tokens of its own. -/
theorem tokenize_append {table : OperatorTable R} [table.TakesPrefixes] {c : Char} {k : Kind}
    (boundary : table.Boundary c k) (not_name : k ≠ .name) (not_blank : k ≠ .blank)
    (text : String) {more : String} (starts : more.toList.head? = some c) :
    tokenize table (text ++ more) = tokenize table text ++ tokenize table more ∧
      nextToken (tokenize table more) = ⟨k, String.ofList [c]⟩ := by
  obtain ⟨v, chars⟩ := List.head?_eq_some_iff.mp starts
  have behind (u : List Char) := tokens_append_boundary boundary not_name not_blank u v
  have alone := behind []
  rw [piecesOf_nil, mergeNames_nil, List.nil_append, List.nil_append] at alone
  rw [tokenize_eq, tokenize_eq, tokenize_eq, String.toList_append, chars, behind, alone]
  exact ⟨rfl, rfl⟩

end MathShorthand
