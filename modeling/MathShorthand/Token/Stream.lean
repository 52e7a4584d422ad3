import MathShorthand.Token.Pieces

/-!
# Tokens of a text

Tokens are pieces with the blanks taken care of. Names that only blanks part are one name, which
keeps the blanks inside it as they were written. All other blanks are dropped.
-/

namespace MathShorthand

/-- The tokens still to be read from a text. -/
structure TokenStream where
  /-- The whole text. -/
  text : List Char
  /-- The pieces after the one that is pending. -/
  pieces : Pieces
  /-- A piece that was read past the end of the last name. -/
  pending : Option Token := none
  deriving DecidableEq

namespace TokenStream

variable {R : Type} [Regex R]

def ofText (text : List Char) : TokenStream := { text, pieces := .ofText text }

/-- The next piece. One that is pending comes before all others. -/
def takePiece (table : OperatorTable R) (s : TokenStream) : Next TokenStream :=
  match s.pending with
  | some t => .gives t { s with pending := none }
  | none => (s.pieces.next table).map fun pieces => { s with pieces }

/-- Go on with a name that reaches to the byte `stop` up to the piece that ends it, which is then
pending. Gives the end of the name and the tokens after it. None is a panic. -/
def extendName? (table : OperatorTable R) (s : TokenStream) (stop : Nat) :
    Option (Nat × TokenStream) :=
  match step : s.pieces.next table with
  | .panic => none
  | .ended => some (stop, s)
  | .gives t pieces =>
    have := Pieces.length_lt step
    if t.kind = .name then extendName? table { s with pieces } pieces.cursor
    else if t.kind = .blank then extendName? table { s with pieces } stop
    else some (stop, { s with pieces, pending := some t })
termination_by s.pieces.length

/-- The name that starts with the piece `first`, which ends at the cursor, and the tokens after it.
None is a panic. -/
def mergeName? (table : OperatorTable R) (s : TokenStream) (first : Token) :
    Option (Token × TokenStream) := do
  let start := s.pieces.cursor - first.text.utf8ByteSize
  let (stop, after) ← extendName? table s s.pieces.cursor
  let text ← Text.slice? start stop s.text
  return (⟨.name, String.ofList text⟩, after)

/-- The number of pieces a stream can still give, or more. -/
def size (s : TokenStream) : Nat := s.pieces.length + if s.pending.isSome then 1 else 0

theorem size_lt_of_takePiece {table : OperatorTable R} {s after : TokenStream} {t : Token}
    (taken : s.takePiece table = .gives t after) : after.size < s.size := by
  unfold takePiece at taken
  split at taken
  · next pending =>
    cases taken
    simp [size, pending]
  · next pending =>
    cases step : s.pieces.next table with
    | panic | ended =>
      rw [step] at taken
      cases taken
    | gives t' pieces =>
      rw [step] at taken
      cases taken
      have lt := Pieces.length_lt step
      simpa [size, pending] using lt

theorem size_extendName?_le {table : OperatorTable R} {s after : TokenStream} {stop stop' : Nat}
    (extended : extendName? table s stop = some (stop', after)) : after.size ≤ s.size := by
  fun_induction extendName? table s stop with
  | case1 => cases extended
  | case2 s stop ended =>
    cases extended
    exact Nat.le_refl _
  | case3 s stop t pieces step lt name ih | case4 s stop t pieces step lt name blank ih =>
    have le := ih extended
    simp only [size] at le ⊢
    omega
  | case5 s stop t pieces step lt name blank =>
    cases extended
    simp only [size, Option.isSome_some, if_true]
    omega

theorem exists_of_mergeName? {table : OperatorTable R} {s after : TokenStream} {first t : Token}
    (merged : mergeName? table s first = some (t, after)) :
    ∃ stop text, extendName? table s s.pieces.cursor = some (stop, after) ∧
      Text.slice? (s.pieces.cursor - first.text.utf8ByteSize) stop s.text = some text ∧
      t = ⟨.name, String.ofList text⟩ := by
  obtain ⟨⟨stop, after'⟩, extended, sliced⟩ := Option.bind_eq_some_iff.mp merged
  obtain ⟨text, slice, same⟩ := Option.bind_eq_some_iff.mp sliced
  cases same
  exact ⟨stop, text, extended, slice, rfl⟩

/-- The next token. Blanks in front of it are left out, and a name takes in the names after it that
only blanks part from it. -/
def next (table : OperatorTable R) (s : TokenStream) : Next TokenStream :=
  match taken : s.takePiece table with
  | .panic => .panic
  | .ended => .ended
  | .gives t after =>
    have := size_lt_of_takePiece taken
    if t.kind = .blank then next table after
    else if t.kind = .name then
      match mergeName? table after t with
      | none => .panic
      | some (name, after) => .gives name after
    else .gives t after
termination_by s.size

theorem size_lt {table : OperatorTable R} {s after : TokenStream} {t : Token}
    (step : s.next table = .gives t after) : after.size < s.size := by
  fun_induction next table s with
  | case1 | case2 => cases step
  | case3 s piece left taken lt blank ih => exact Nat.lt_trans (ih step) lt
  | case4 => cases step
  | case5 s piece left taken lt blank name token after' merged =>
    cases step
    obtain ⟨stop, text, extended, -⟩ := exists_of_mergeName? merged
    exact Nat.lt_of_le_of_lt (size_extendName?_le extended) lt
  | case6 s piece left taken lt blank name =>
    cases step
    exact lt

/-- All tokens. None is a panic on the way. -/
def toList? (table : OperatorTable R) (s : TokenStream) : Option (List Token) :=
  match step : s.next table with
  | .panic => none
  | .ended => some []
  | .gives t after =>
    have := size_lt step
    (toList? table after).map (t :: ·)
termination_by s.size

end TokenStream

/-- The tokens of a text. None is a panic, as it may come of operators that take their pieces from
elsewhere than from the start of the text. -/
def tokenize? {R : Type} [Regex R] (table : OperatorTable R) (text : String) :
    Option (List Token) :=
  (TokenStream.ofText text.toList).toList? table

end MathShorthand
