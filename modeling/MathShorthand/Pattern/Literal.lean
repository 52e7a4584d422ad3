import MathShorthand.Pattern.Sign

/-!
# Literal text as a pattern

`escape` writes a text as a pattern for just that text: the characters that can mean something in
a pattern get a backslash.
-/

namespace MathShorthand.Pattern

/-- A character written so that it stands for itself. -/
def escapeChar (c : Char) : List Char := if c ∈ metacharacters then ['\\', c] else [c]

/-- The written pattern for exactly `text`. -/
def escape (text : List Char) : List Char := text.flatMap escapeChar

def literalMark (c : Char) : Mark := if c ∈ metacharacters then .escaped c else .plain c

theorem marks?_escapeChar_append (c : Char) (text : List Char) :
    marks? (escapeChar c ++ text) = (marks? text).map (literalMark c :: ·) := by
  unfold escapeChar literalMark
  split
  · next mem =>
    have no_blank : c ≠ 's' := by
      rintro rfl
      exact absurd mem (by decide)
    simp [marks?, isEscapable_of_mem mem]
  · next free =>
    have no_backslash : c ≠ '\\' := by
      rintro rfl
      exact free (by decide)
    simp [marks?, no_backslash]

theorem marks?_escape_append (text rest : List Char) :
    marks? (escape text ++ rest) = (marks? rest).map (text.map literalMark ++ ·) := by
  induction text with
  | nil => simp [escape]
  | cons c text ih =>
    simp only [escape, List.flatMap_cons, List.append_assoc] at ih ⊢
    rw [marks?_escapeChar_append, ih]
    simp [Function.comp_def]

theorem signs?_literalMark_cons (c : Char) (marks : List Mark) :
    signs? (literalMark c :: marks) = (signs? marks).map (.char c :: ·) := by
  unfold literalMark
  split
  · simp [signs?]
  · next free =>
    simp only [metacharacters, List.mem_cons, List.not_mem_nil, or_false, not_or] at free
    simp [signs?, free]

/-- A text in its literal marks is read as the characters of the text. -/
theorem signs?_literal_append (text : List Char) (marks : List Mark) :
    signs? (text.map literalMark ++ marks) = (signs? marks).map (text.map Sign.char ++ ·) := by
  induction text with
  | nil => simp
  | cons c text ih =>
    rw [List.map_cons, List.cons_append, signs?_literalMark_cons, ih]
    simp [Function.comp_def]

end MathShorthand.Pattern
