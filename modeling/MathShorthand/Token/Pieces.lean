import MathShorthand.Operator.Table
import MathShorthand.Text.Bytes

/-!
# Pieces

A text falls into pieces: operators, blanks among them, and the names between them. A piece that
no operator starts is a name, and a name goes on to the next operator that ends names.

The cursor goes as many bytes ahead as a piece is long. If an operator took its piece from elsewhere,
the cursor may come to stand inside a character, and the next look at the text is a panic.
-/

namespace MathShorthand

/-- What comes of asking for the next of some tokens. -/
inductive Next (σ : Type) where
  /-- The text was to be cut inside a character. Nothing goes on from here. -/
  | panic
  | ended
  | gives (t : Token) (after : σ)
  deriving DecidableEq

def Next.map {σ τ : Type} (f : σ → τ) : Next σ → Next τ
  | panic => .panic
  | ended => .ended
  | gives t after => .gives t (f after)

/-- The pieces still to be read from a text. -/
structure Pieces where
  /-- The number of bytes already read. -/
  cursor : Nat
  /-- The text still to be read, unless the cursor stands inside a character. -/
  rest? : Option (List Char)
  deriving DecidableEq

namespace Pieces

variable {R : Type} [Regex R]

def ofText (text : List Char) : Pieces := ⟨0, some text⟩

theorem rest?_ofText (text : List Char) : (ofText text).rest? = some text := rfl

/-- The text up to the first place where an operator ends a name. -/
def untilBreak (table : OperatorTable R) : List Char → List Char
  | [] => []
  | c :: text =>
    if (table.findBreaking? (c :: text)).isSome then [] else c :: untilBreak table text

/-- The piece at the front of a text. The first character of a name belongs to it, whatever it
is. -/
def front? (table : OperatorTable R) : List Char → Option (Kind × List Char)
  | [] => none
  | c :: text =>
    match table.find? (c :: text) with
    | some found => some found
    | none => some (.name, c :: untilBreak table text)

def skip (s : Pieces) (piece : List Char) : Pieces :=
  ⟨s.cursor + Text.byteLength piece, s.rest?.bind (Text.dropBytes? (Text.byteLength piece))⟩

def next (table : OperatorTable R) (s : Pieces) : Next Pieces :=
  match s.rest? with
  | none => .panic
  | some rest =>
    match front? table rest with
    | none => .ended
    | some (kind, piece) => .gives ⟨kind, String.ofList piece⟩ (s.skip piece)

/-- The least and the greatest number of pieces that may still come. Every piece has at least one
byte. None is a panic. -/
def sizeBounds? (s : Pieces) : Option (Nat × Nat) :=
  s.rest?.map fun rest => (min (Text.byteLength rest) 1, Text.byteLength rest)

theorem front?_ne_nil {table : OperatorTable R} {text piece : List Char} {kind : Kind}
    (found : front? table text = some (kind, piece)) : piece ≠ [] := by
  cases text with
  | nil => simp [front?] at found
  | cons c text =>
    simp only [front?] at found
    split at found
    · next h => exact OperatorTable.find?_ne_nil (Option.some.inj found ▸ h)
    · simp only [Option.some.injEq, Prod.mk.injEq] at found
      simp [← found.2]

theorem front?_eq_none_iff (table : OperatorTable R) (text : List Char) :
    front? table text = none ↔ text = [] := by
  cases text with
  | nil => simp [front?]
  | cons c text =>
    simp only [front?, reduceCtorEq, iff_false]
    split <;> simp

/-- The number of characters still to be read. -/
def length (s : Pieces) : Nat := s.rest?.elim 0 List.length

theorem exists_of_next {table : OperatorTable R} {s s' : Pieces} {t : Token}
    (step : s.next table = .gives t s') :
    ∃ rest kind piece, s.rest? = some rest ∧ front? table rest = some (kind, piece) ∧
      t = ⟨kind, String.ofList piece⟩ ∧ s' = s.skip piece := by
  unfold next at step
  split at step
  · cases step
  · next rest some_rest =>
    split at step
    · cases step
    · next kind piece found =>
      cases step
      exact ⟨rest, kind, piece, some_rest, found, rfl, rfl⟩

theorem length_lt {table : OperatorTable R} {s s' : Pieces} {t : Token}
    (step : s.next table = .gives t s') : s'.length < s.length := by
  obtain ⟨rest, kind, piece, some_rest, found, -, rfl⟩ := exists_of_next step
  have some_bytes : Text.byteLength piece ≠ 0 :=
    mt (Text.byteLength_eq_zero piece).mp (front?_ne_nil found)
  rw [length, length, skip, some_rest, Option.bind_some]
  cases cut : Text.dropBytes? (Text.byteLength piece) rest with
  | none =>
    cases rest with
    | nil => cases found
    | cons c rest => exact Nat.succ_pos _
  | some behind => exact Text.length_dropBytes?_lt some_bytes cut

/-- All pieces. None is a panic on the way. -/
def toList? (table : OperatorTable R) (s : Pieces) : Option (List Token) :=
  match step : s.next table with
  | .panic => none
  | .ended => some []
  | .gives t s' =>
    have := length_lt step
    (toList? table s').map (t :: ·)
termination_by s.length

end Pieces

end MathShorthand
