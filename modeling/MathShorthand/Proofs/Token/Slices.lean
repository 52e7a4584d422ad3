import MathShorthand.Proofs.Pattern.Lawful
import MathShorthand.Token.Pieces

/-!
# Pieces as slices of the text

Reading a text in pieces relies on every operator to take its pieces from the start of the text. A
table whose operators all come from patterns that are well formed on their own does so, and reads
each piece as the slice at the cursor. Reading slices asks for no more than that what the whole table
finds is a prefix (`Pieces.readsSlices_iff`). An alternative outside of the brackets of a pattern
breaks it, up to a cursor that stands inside a character.
-/

namespace MathShorthand

variable {R : Type} [Regex R]

/-! ### Tables -/

namespace OperatorTable

/-- Whatever is found in a text is at its start. -/
def FindsPrefixes (table : OperatorTable R) : Prop :=
  ∀ text kind piece, table.find? text = some (kind, piece) → piece <+: text

/-- No operator takes an empty piece, or one that is not at the start of the text. -/
class TakesPrefixes (table : OperatorTable R) : Prop where
  prefix_of_recognize : ∀ op ∈ table.operators, ∀ text piece, op.recognize text = some piece →
    piece ≠ [] ∧ piece <+: text

theorem find?_eq_some_iff {table : OperatorTable R} {text piece : List Char} {kind : Kind} :
    table.find? text = some (kind, piece) ↔
      ∃ before op after, table.operators = before ++ op :: after ∧ op.kind = kind ∧
        op.recognize text = some piece ∧ ∀ other ∈ before, other.recognize text = none := by
  simp only [find?, findAmong?, List.findSome?_eq_some_iff, Option.map_eq_some_iff,
    Option.map_eq_none_iff, Prod.mk.injEq]
  constructor
  · rintro ⟨before, op, after, split, ⟨_, found, rfl, rfl⟩, missed⟩
    exact ⟨before, op, after, split, rfl, found, missed⟩
  · rintro ⟨before, op, after, split, rfl, found, missed⟩
    exact ⟨before, op, after, split, ⟨_, found, rfl, rfl⟩, missed⟩

theorem TakesPrefixes.findsPrefixes {table : OperatorTable R} (prefixes : table.TakesPrefixes) :
    table.FindsPrefixes := by
  intro text kind piece found
  obtain ⟨before, op, after, split, -, recognized, -⟩ := find?_eq_some_iff.mp found
  exact (prefixes.prefix_of_recognize op (by simp [split]) text piece recognized).2

theorem find?_nil [LawfulRegex R] (table : OperatorTable R) : table.find? [] = none := by
  simp [find?, findAmong?, Operator.recognize_nil]

theorem takesPrefixes_of_wellFormed [LawfulRegex R] {table : OperatorTable R}
    (formed : ∀ op ∈ table.operators, op.WellFormed) : table.TakesPrefixes :=
  ⟨fun op mem _ _ => Operator.prefix_of_recognize (formed op mem)⟩

theorem exists_pattern_of_mem {patterns : List (String × Kind × Bool)} {table : OperatorTable R}
    (read : ofPatterns? patterns = some table) {op : Operator R} (mem : op ∈ table.operators) :
    ∃ p ∈ patterns, Operator.ofPattern? p.2.1 p.1 p.2.2 = some op := by
  obtain ⟨operators, all, rfl⟩ := Option.map_eq_some_iff.mp read
  clear read
  induction patterns generalizing operators with
  | nil =>
    cases all
    cases mem
  | cons p patterns ih =>
    rw [List.mapM_cons, Option.bind_eq_bind, Option.bind_eq_some_iff] at all
    obtain ⟨first, accepted, others⟩ := all
    rw [Option.bind_eq_bind, Option.bind_eq_some_iff] at others
    obtain ⟨operators, all, same⟩ := others
    cases same
    rcases List.mem_cons.mp mem with rfl | mem
    · exact ⟨p, List.mem_cons_self, accepted⟩
    · obtain ⟨p', listed, accepted'⟩ := ih operators all mem
      exact ⟨p', List.mem_cons_of_mem p listed, accepted'⟩

/-- Patterns that are well formed on their own make a table that takes prefixes. -/
theorem takesPrefixes_of_patterns [LawfulRegex R] {patterns : List (String × Kind × Bool)}
    {table : OperatorTable R} (read : ofPatterns? patterns = some table)
    (alone : ∀ p ∈ patterns, (Regex.read? p.1.toList : Option R).isSome = true) :
    table.TakesPrefixes := by
  apply takesPrefixes_of_wellFormed
  intro op mem
  obtain ⟨p, listed, accepted⟩ := exists_pattern_of_mem read mem
  exact ⟨_, _, _, accepted, alone p listed⟩

theorem ofPatterns?_standardPatterns : ofPatterns? standardPatterns = some standard :=
  (Option.some_get _).symm

instance takesPrefixes_standard : standard.TakesPrefixes :=
  takesPrefixes_of_patterns ofPatterns?_standardPatterns (by decide)

end OperatorTable

/-! ### Pieces -/

namespace Pieces

/-- The pieces that are still to be read after some of a text have been. -/
inductive Reached (table : OperatorTable R) (text : List Char) : Pieces → Prop where
  | start : Reached table text (ofText text)
  | next {s s' : Pieces} {t : Token} (before : Reached table text s)
      (step : s.next table = .gives t s') : Reached table text s'

/-- The cursor stands between two characters of the text or at its end, and what comes after it is
still to be read. -/
def Aligned (text : List Char) (s : Pieces) : Prop :=
  ∃ front rest, text = front ++ rest ∧ s.rest? = some rest ∧ s.cursor = Text.byteLength front

/-- From each cursor that reading comes to, the text can be read on, and the next piece is the slice
of the text that the cursor goes past. -/
def ReadsSlices (table : OperatorTable R) (text : List Char) : Prop :=
  ∀ s, Reached table text s → Aligned text s ∧ s.next table ≠ .panic ∧
    ∀ t s', s.next table = .gives t s' →
      Text.slice? s.cursor s'.cursor text = some t.text.toList ∧
        s'.cursor = s.cursor + t.text.utf8ByteSize

theorem prefix_untilBreak (table : OperatorTable R) (text : List Char) :
    untilBreak table text <+: text := by
  induction text with
  | nil => exact List.prefix_rfl
  | cons c text ih =>
    unfold untilBreak
    split
    · exact List.nil_prefix
    · exact (List.prefix_cons_inj c).mpr ih

variable {table : OperatorTable R} {text rest : List Char} {s s' : Pieces} {t : Token}

theorem prefix_of_front? (finds : table.FindsPrefixes) {piece : List Char} {kind : Kind}
    (found : front? table text = some (kind, piece)) : piece <+: text := by
  unfold front? at found
  split at found
  · cases found
  · next c text =>
    split at found
    · next named =>
      cases found
      exact finds _ kind piece named
    · cases found
      exact (List.prefix_cons_inj c).mpr (prefix_untilBreak table text)

theorem front?_of_find? {piece : List Char} {kind : Kind} (some_text : text ≠ [])
    (found : table.find? text = some (kind, piece)) : front? table text = some (kind, piece) := by
  cases text with
  | nil => exact absurd rfl some_text
  | cons c text => rw [front?, found]

theorem next_of_rest? (left : s.rest? = some rest) :
    s.next table =
      match front? table rest with
      | none => .ended
      | some (kind, piece) => .gives ⟨kind, String.ofList piece⟩ (s.skip piece) := by
  obtain ⟨cursor, _⟩ := s
  obtain rfl := left
  rfl

theorem next_ne_panic (left : s.rest? = some rest) : s.next table ≠ .panic := by
  rw [next_of_rest? left]
  split <;> nofun

/-- A piece is cut off the text that is left. -/
theorem exists_rest_of_next (finds : table.FindsPrefixes) (step : s.next table = .gives t s') :
    ∃ rest, s.rest? = some (t.text.toList ++ rest) ∧ s'.rest? = some rest ∧
      s'.cursor = s.cursor + t.text.utf8ByteSize := by
  obtain ⟨_, kind, piece, left, found, rfl, rfl⟩ := exists_of_next step
  obtain ⟨rest, rfl⟩ := prefix_of_front? finds found
  have length : Text.byteLength piece = (String.ofList piece).utf8ByteSize := by
    rw [← Text.byteLength_toList, String.toList_ofList]
  refine ⟨rest, by rw [left, String.toList_ofList], ?_, congrArg (s.cursor + ·) length⟩
  rw [skip, left, Option.bind_some, Text.dropBytes?_append]

theorem Aligned.next (finds : table.FindsPrefixes) (aligned : Aligned text s)
    (step : s.next table = .gives t s') : Aligned text s' := by
  obtain ⟨front, _, rfl, left, cursor⟩ := aligned
  obtain ⟨rest, left', after, moved⟩ := exists_rest_of_next finds step
  obtain rfl := Option.some.inj (left.symm.trans left')
  refine ⟨front ++ t.text.toList, rest, (List.append_assoc _ _ _).symm, after, ?_⟩
  rw [Text.byteLength_append, Text.byteLength_toList, moved, cursor]

theorem aligned_of_reached (finds : table.FindsPrefixes) (reached : Reached table text s) :
    Aligned text s := by
  induction reached with
  | start => exact ⟨[], text, rfl, rfl, rfl⟩
  | next _ step ih => exact ih.next finds step

theorem Aligned.slice? (finds : table.FindsPrefixes) (aligned : Aligned text s)
    (step : s.next table = .gives t s') :
    Text.slice? s.cursor s'.cursor text = some t.text.toList := by
  obtain ⟨front, _, rfl, left, cursor⟩ := aligned
  obtain ⟨rest, left', -, moved⟩ := exists_rest_of_next finds step
  obtain rfl := Option.some.inj (left.symm.trans left')
  rw [moved, cursor, ← Text.byteLength_toList, Text.slice?_append]

/-- A slice from the start of a text is a prefix of it. -/
theorem findsPrefixes_of_readsSlices [LawfulRegex R] (slices : ∀ text, ReadsSlices table text) :
    table.FindsPrefixes := by
  intro text kind piece found
  have some_text : text ≠ [] := by
    rintro rfl
    rw [OperatorTable.find?_nil] at found
    cases found
  have front := front?_of_find? some_text found
  have step : (ofText text).next table =
      .gives ⟨kind, String.ofList piece⟩ ((ofText text).skip piece) := by
    rw [next_of_rest? rfl, front]
  obtain ⟨slice, -⟩ := (slices text _ .start).2.2 _ _ step
  rw [String.toList_ofList, Text.slice?] at slice
  split at slice
  · have cut : Text.dropBytes? (ofText text).cursor text = some text := by
      rw [ofText, Text.dropBytes?]
    rw [cut, Option.bind_some] at slice
    exact Text.prefix_of_takeBytes? slice
  · cases slice

theorem readsSlices_iff [LawfulRegex R] : (∀ text, ReadsSlices table text) ↔ table.FindsPrefixes := by
  refine ⟨findsPrefixes_of_readsSlices, fun finds text s reached => ?_⟩
  have aligned := aligned_of_reached finds reached
  obtain ⟨front, rest, -, left, -⟩ := id aligned
  refine ⟨aligned, next_ne_panic left, fun t s' step => ⟨aligned.slice? finds step, ?_⟩⟩
  obtain ⟨-, -, -, moved⟩ := exists_rest_of_next finds step
  exact moved

/-- Behind a character of two bytes, a piece of one leaves the cursor inside it. -/
theorem exists_panic {op : Operator R} (takes : op.recognize "éb".toList = some ['b']) :
    ∃ s, Reached ⟨[op]⟩ "éb".toList s ∧ s.next ⟨[op]⟩ = .panic := by
  have found : (⟨[op]⟩ : OperatorTable R).find? "éb".toList = some (op.kind, ['b']) :=
    OperatorTable.find?_eq_some_iff.mpr ⟨[], op, [], rfl, rfl, takes, nofun⟩
  have front := front?_of_find? (by decide) found
  refine ⟨⟨1, none⟩, .next (t := ⟨op.kind, "b"⟩) .start ?_, rfl⟩
  rw [next_of_rest? rfl, front]
  rfl

end Pieces

/-! ### The alternative outside -/

section

variable [LawfulRegex R] {kind : Kind} {breaksNames : Bool} {op : Operator R}

open LawfulRegex (Describes)

/-- What is written `a)|(b` takes a `b` that stands behind any other character. -/
theorem Operator.recognize_b_past_start
    (accepted : ofPattern? kind "a)|(b" breaksNames = some op)
    (some_a : (Regex.read? ['a'] : Option R).isSome = true)
    (some_b : (Regex.read? ['b'] : Option R).isSome = true) {c : Char} (no_a : c ≠ 'a')
    (no_b : c ≠ 'b') : op.recognize [c, 'b'] = some ['b'] := by
  obtain ⟨a, read_a⟩ := Option.isSome_iff_exists.mp some_a
  obtain ⟨b, read_b⟩ := Option.isSome_iff_exists.mp some_b
  have means_a := LawfulRegex.literal (by decide) read_a
  have means_b := LawfulRegex.literal (by decide) read_b
  have written : "a)|(b" = "a" ++ ")|(" ++ "b" := by decide
  rw [written] at accepted
  have described := (means_b [c] ['b'] []).mpr rfl
  refine recognize_past_start accepted (by decide) read_a read_b (List.cons_ne_nil _ _) described ?_ ?_
  · intro piece after split described
    rw [means_a] at described
    subst described
    exact no_a (List.cons.inj split).1
  · intro before piece after split described
    rw [means_b] at described
    subst described
    cases before with
    | nil => exact absurd (List.cons.inj split).1 no_b
    | cons d before =>
      obtain ⟨rfl, split⟩ := List.cons.inj split
      cases before with
      | nil => exact ⟨rfl, rfl⟩
      | cons d before => simp at split

end

/-- An operator whose pattern is well formed on its own recognizes non-empty prefixes alone, and a
table of such operators reads slices of every text. A table reads slices just if all that it finds
are prefixes. What is written `a)|(b` is no such operator: it recognizes a `b` anywhere, and a
table of it comes to cut a text inside a character. -/
theorem slices_of_wellFormed (R : Type) [Regex R] [LawfulRegex R] :
    (∀ op : Operator R, op.WellFormed → ∀ text piece, op.recognize text = some piece →
      piece ≠ [] ∧ piece <+: text) ∧
    (∀ table : OperatorTable R, (∀ op ∈ table.operators, op.WellFormed) →
      ∀ text, Pieces.ReadsSlices table text) ∧
    (∀ table : OperatorTable R, (∀ text, Pieces.ReadsSlices table text) ↔ table.FindsPrefixes) ∧
    ∀ kind breaksNames (op : Operator R), Operator.ofPattern? kind "a)|(b" breaksNames = some op →
      (Regex.read? ['a'] : Option R).isSome = true → (Regex.read? ['b'] : Option R).isSome = true →
      op.recognize "xb".toList = some "b".toList ∧
        ∃ s, Pieces.Reached ⟨[op]⟩ "éb".toList s ∧ s.next ⟨[op]⟩ = .panic := by
  refine ⟨fun op formed _ _ => Operator.prefix_of_recognize formed, fun table formed => ?_,
    fun table => Pieces.readsSlices_iff, fun kind breaksNames op accepted some_a some_b => ?_⟩
  · exact Pieces.readsSlices_iff.mpr (OperatorTable.takesPrefixes_of_wellFormed formed).findsPrefixes
  · have takes {c : Char} := Operator.recognize_b_past_start accepted some_a some_b (c := c)
    exact ⟨takes (by decide) (by decide), Pieces.exists_panic (takes (by decide) (by decide))⟩

/-- An alternative outside of the brackets is recognized past the start. The cursor then goes as
far as the piece is long, and comes to stand inside a character. -/
theorem recognized_past_start :
    ∃ op : Operator Pattern, Operator.ofPattern? .plus "a)|(b" true = some op ∧
      op.recognize "xb".toList = some "b".toList ∧ ¬"b".toList <+: "xb".toList ∧
      ∃ s, Pieces.Reached ⟨[op]⟩ "éb".toList s ∧ ¬Pieces.Aligned "éb".toList s ∧
        s.next ⟨[op]⟩ = .panic := by
  refine ⟨⟨.plus, true, .alt (.seq .start (.literal ['a'])) (.group (.literal ['b']))⟩,
    by decide, by decide, by decide, ⟨1, none⟩, .next (t := ⟨.plus, "b"⟩) .start (by decide), ?_, rfl⟩
  rintro ⟨front, rest, -, left, -⟩
  cases left

/-- The brackets hold the first two alternatives together, and not the others. -/
theorem slices_of_alternatives :
    ∃ op other : Operator Pattern,
      (Operator.ofPattern? .plus "a|b" true = some op ∧
        (Regex.read? "a|b".toList : Option Pattern).isSome = true ∧
        (∀ text piece, op.recognize text = some piece → piece ≠ [] ∧ piece <+: text) ∧
        (∀ text, Pieces.ReadsSlices ⟨[op]⟩ text) ∧ OperatorTable.FindsPrefixes ⟨[op]⟩) ∧
      Operator.ofPattern? .plus "a)|(b" true = some other ∧
        (Regex.read? "a)|(b".toList : Option Pattern) = none ∧
        other.recognize "xb".toList = some "b".toList ∧
        ∃ s, Pieces.Reached ⟨[other]⟩ "éb".toList s ∧ s.next ⟨[other]⟩ = .panic := by
  let op : Operator Pattern :=
    ⟨.plus, true, .seq .start (.one false (.union (.single 'a') (.single 'b')))⟩
  let other : Operator Pattern :=
    ⟨.plus, true, .alt (.seq .start (.literal ['a'])) (.group (.literal ['b']))⟩
  have accepted : Operator.ofPattern? .plus "a|b" true = some op := by decide
  have outside : Operator.ofPattern? .plus "a)|(b" true = some other := by decide
  obtain ⟨recognizes, reads, reads_iff, past_start⟩ := slices_of_wellFormed Pattern
  have formed : op.WellFormed := ⟨_, _, _, accepted, by decide⟩
  have slices := reads ⟨[op]⟩ (List.forall_mem_singleton.mpr formed)
  exact ⟨op, other, ⟨accepted, by decide, recognizes op formed, slices, (reads_iff _).mp slices⟩,
    outside, by decide, past_start _ _ other outside (by decide) (by decide)⟩

end MathShorthand
