/-!
# Marks

The characters of a written pattern, with every backslash taken together with the character after
it. A punctuation character after a backslash stands for itself. Of the letters that mean something
after a backslash only the `s` of `\s` is known, and a pattern with any other is refused.
-/

namespace MathShorthand.Pattern

/-- A character of a written pattern, or a backslash and one. -/
inductive Mark where
  | plain (c : Char)
  | escaped (c : Char)
  /-- A blank, written `\s`. -/
  | blank
  deriving DecidableEq

/-- The characters that can mean something in a written pattern. -/
def metacharacters : List Char :=
  ['\\', '.', '+', '*', '?', '(', ')', '|', '[', ']', '\x7b', '\x7d', '^', '$', '#', '&', '-', '~']

/-- A character that stands for itself after a backslash: any of ASCII that is no letter, no digit
and no angle bracket. -/
def isEscapable (c : Char) : Bool :=
  c.toNat < 128 && !c.isAlphanum && c != '<' && c != '>'

theorem isEscapable_of_mem {c : Char} (h : c ∈ metacharacters) : isEscapable c = true :=
  List.all_eq_true.1 (by decide : metacharacters.all isEscapable = true) c h

/-- The marks of a written pattern. A backslash needs a character that it is known to go with. -/
def marks? : List Char → Option (List Mark)
  | [] => some []
  | '\\' :: 's' :: text => (marks? text).map (.blank :: ·)
  | '\\' :: c :: text => if isEscapable c then (marks? text).map (.escaped c :: ·) else none
  | ['\\'] => none
  | c :: text => (marks? text).map (.plain c :: ·)

end MathShorthand.Pattern
