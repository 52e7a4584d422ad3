import Mathlib.Data.List.Chain
import Mathlib.Data.List.DropRight
import MathShorthand.Proofs.Token.Segmentation
import MathShorthand.Token.Stream

/-!
# Merging names

`mergeNames` makes tokens of a finished list of pieces. The stream of tokens makes them as it reads,
from the cursor and one piece that it has read too far. It comes to the same because of what it
keeps (`Ready`): a pending piece is never a part of a name, so that whenever a name starts the
cursor stands right after its first piece.
-/

namespace MathShorthand

namespace Token

def isBlank (t : Token) : Bool := t.kind = .blank

/-- The token is a name or a blank. -/
def inRun (t : Token) : Bool := t.kind = .name || t.kind = .blank

variable {t : Token}

theorem inRun_of_name (name : t.kind = .name) : t.inRun = true := by
  simp [inRun, name]

theorem inRun_of_blank (blank : t.kind = .blank) : t.inRun = true := by
  simp [inRun, blank]

theorem isBlank_of_blank (blank : t.kind = .blank) : t.isBlank = true := by
  simp [isBlank, blank]

theorem isBlank_of_name (name : t.kind = .name) : t.isBlank = false := by
  simp [isBlank, name]

theorem inRun_of_other (not_name : t.kind ≠ .name) (not_blank : t.kind ≠ .blank) :
    t.inRun = false := by
  simp [inRun, not_name, not_blank]

theorem inRun_eq_false (other : t.inRun = false) : t.kind ≠ .name ∧ t.kind ≠ .blank := by
  simpa [inRun] using other

theorem inRun_eq_true (run : t.inRun = true) : t.kind = .name ∨ t.kind = .blank := by
  simpa [inRun] using run

theorem inRun_cases (t : Token) : t.kind = .name ∨ t.kind = .blank ∨ t.inRun = false := by
  cases run : t.inRun with
  | false => exact .inr (.inr rfl)
  | true => exact or_assoc.mp (.inl (inRun_eq_true run))

end Token

/-! ### The merging of a list -/

/-- The names and blanks at the front, up to the last name. -/
def nameSpan (ts : List Token) : List Token := (ts.takeWhile Token.inRun).rdropWhile Token.isBlank

/-- All that comes after the names and blanks at the front. -/
def afterRun (ts : List Token) : List Token := ts.dropWhile Token.inRun

/-- Each run of names and blanks from a name on is one name, which ends where the last name in the
run does. All other blanks are left out, and all other tokens are kept. -/
def mergeNames : List Token → List Token
  | [] => []
  | t :: ts =>
    have : (afterRun ts).length ≤ ts.length := (List.dropWhile_suffix _).length_le
    if t.kind = .blank then mergeNames ts
    else if t.kind = .name then
      ⟨.name, String.ofList (written (nameSpan (t :: ts)))⟩ :: mergeNames (afterRun ts)
    else t :: mergeNames ts
termination_by ts => ts.length

section

variable {t : Token} {ts : List Token}

theorem mergeNames_nil : mergeNames [] = [] := by
  rw [mergeNames]

theorem mergeNames_blank (blank : t.kind = .blank) : mergeNames (t :: ts) = mergeNames ts := by
  rw [mergeNames, if_pos blank]

theorem mergeNames_name (name : t.kind = .name) :
    mergeNames (t :: ts) =
      ⟨.name, String.ofList (written (nameSpan (t :: ts)))⟩ :: mergeNames (afterRun ts) := by
  have not_blank : t.kind ≠ .blank := by
    rw [name]
    decide
  rw [mergeNames, if_neg not_blank, if_pos name]

theorem mergeNames_other (other : t.inRun = false) :
    mergeNames (t :: ts) = t :: mergeNames ts := by
  obtain ⟨not_name, not_blank⟩ := Token.inRun_eq_false other
  rw [mergeNames, if_neg not_blank, if_neg not_name]

theorem rdropWhile_cons {α : Type} (p : α → Bool) (a : α) (l : List α) :
    (a :: l).rdropWhile p = if l.rdropWhile p = [] ∧ p a = true then [] else a :: l.rdropWhile p := by
  unfold List.rdropWhile
  rw [List.reverse_cons, List.dropWhile_append]
  cases l.reverse.dropWhile p with
  | nil => cases h : p a <;> simp [h]
  | cons b l => simp

theorem nameSpan_name (name : t.kind = .name) : nameSpan (t :: ts) = t :: nameSpan ts := by
  unfold nameSpan
  rw [List.takeWhile_cons_of_pos (Token.inRun_of_name name), rdropWhile_cons,
    Token.isBlank_of_name name]
  simp

theorem nameSpan_blank (blank : t.kind = .blank) :
    nameSpan (t :: ts) = if nameSpan ts = [] then [] else t :: nameSpan ts := by
  unfold nameSpan
  rw [List.takeWhile_cons_of_pos (Token.inRun_of_blank blank), rdropWhile_cons,
    Token.isBlank_of_blank blank]
  simp

theorem nameSpan_other (other : t.inRun = false) : nameSpan (t :: ts) = [] := by
  unfold nameSpan
  rw [List.takeWhile_cons_of_neg (by simp [other])]
  rfl

theorem afterRun_cons (run : t.inRun = true) : afterRun (t :: ts) = afterRun ts :=
  List.dropWhile_cons_of_pos run

theorem afterRun_other (other : t.inRun = false) : afterRun (t :: ts) = t :: ts :=
  List.dropWhile_cons_of_neg (by simp [other])

theorem nameSpan_prefix (ts : List Token) : nameSpan ts <+: ts :=
  (List.rdropWhile_prefix _ _).trans (List.takeWhile_prefix _)

end

/-! ### What merging keeps -/

/-- The two tokens are not both names. -/
def Token.Apart (a b : Token) : Prop := ¬(a.kind = .name ∧ b.kind = .name)

/-- The token that a row of pieces makes. -/
def joined (span : List Token) : Token := ⟨(span.headD .eof).kind, String.ofList (written span)⟩

theorem joined_singleton (t : Token) : joined [t] = t := by
  simp [joined, written]

theorem ne_blank_of_mem_mergeNames (ts : List Token) : ∀ t ∈ mergeNames ts, t.kind ≠ .blank := by
  fun_induction mergeNames ts with
  | case1 => simp
  | case2 t ts le blank ih => exact ih
  | case3 t ts le blank name ih =>
    refine List.forall_mem_cons.mpr ⟨?_, ih⟩
    intro same
    cases same
  | case4 t ts le blank name ih => exact List.forall_mem_cons.mpr ⟨blank, ih⟩

theorem inRun_head_afterRun (ts : List Token) : ∀ t ∈ (afterRun ts).head?, t.inRun = false := by
  intro t mem
  have stop := List.head?_dropWhile_not Token.inRun ts
  rw [← afterRun, mem] at stop
  simpa using stop

theorem apart_head_mergeNames (ts : List Token) (a : Token) :
    ∀ b ∈ (mergeNames (afterRun ts)).head?, a.Apart b := by
  intro b mem
  have stop := inRun_head_afterRun ts
  cases after : afterRun ts with
  | nil =>
    rw [after, mergeNames_nil] at mem
    cases mem
  | cons t others =>
    rw [after] at stop mem
    have other : t.inRun = false := stop t rfl
    rw [mergeNames_other other] at mem
    obtain rfl : t = b := Option.some.inj mem
    exact fun both => (Token.inRun_eq_false other).1 both.2

theorem isChain_mergeNames (ts : List Token) : (mergeNames ts).IsChain Token.Apart := by
  fun_induction mergeNames ts with
  | case1 => exact .nil
  | case2 t ts le blank ih => exact ih
  | case3 t ts le blank name ih => exact List.isChain_cons.mpr ⟨apart_head_mergeNames ts _, ih⟩
  | case4 t ts le blank name ih =>
    exact List.isChain_cons.mpr ⟨fun b _ both => name both.1, ih⟩

/-- The pieces that go into the spans are all pieces but some blanks. -/
def OmitsBlanks (spans : List (List Token)) (ts : List Token) : Prop :=
  spans.flatten.Sublist ts ∧
    spans.flatten.filter (fun t => t.kind ≠ .blank) = ts.filter (fun t => t.kind ≠ .blank)

theorem filter_nameSpan (ts : List Token) :
    (nameSpan ts).filter (fun t => t.kind ≠ .blank) =
      (ts.takeWhile Token.inRun).filter (fun t => t.kind ≠ .blank) := by
  have trailing : ((ts.takeWhile Token.inRun).rtakeWhile Token.isBlank).filter
      (fun t => t.kind ≠ .blank) = [] := by
    apply List.filter_eq_nil_iff.mpr
    intro t mem
    have blank : t.isBlank = true := List.mem_rtakeWhile_imp mem
    simpa [Token.isBlank] using blank
  have whole := List.rdropWhile_append_rtakeWhile (p := Token.isBlank)
    (l := ts.takeWhile Token.inRun)
  conv => rhs; rw [← whole]
  rw [List.filter_append, trailing, List.append_nil, nameSpan]

/-- Every token is made of a row of pieces, and the pieces in no row are blanks. -/
theorem exists_spans (ts : List Token) :
    ∃ spans, spans.map joined = mergeNames ts ∧ OmitsBlanks spans ts := by
  fun_induction mergeNames ts with
  | case1 => exact ⟨[], rfl, .slnil, rfl⟩
  | case2 t ts le blank ih =>
    obtain ⟨spans, merged, kept, same⟩ := ih
    refine ⟨spans, merged, kept.cons t, ?_⟩
    rw [same, List.filter_cons_of_neg (by simp [blank])]
  | case3 t ts le blank name ih =>
    obtain ⟨spans, merged, kept, same⟩ := ih
    have run := List.takeWhile_append_dropWhile (p := Token.inRun) (l := t :: ts)
    have after : (t :: ts).dropWhile Token.inRun = afterRun ts :=
      afterRun_cons (Token.inRun_of_name name)
    rw [after] at run
    have span_kept : (nameSpan (t :: ts)).Sublist ((t :: ts).takeWhile Token.inRun) :=
      (List.rdropWhile_prefix _ _).sublist
    refine ⟨nameSpan (t :: ts) :: spans, ?_, ?_, ?_⟩
    · rw [List.map_cons, merged, joined, nameSpan_name name, List.headD_cons, name]
    · have both := span_kept.append kept
      rwa [run] at both
    · conv => rhs; rw [← run]
      rw [List.flatten_cons, List.filter_append, List.filter_append, filter_nameSpan, same]
  | case4 t ts le blank name ih =>
    obtain ⟨spans, merged, kept, same⟩ := ih
    refine ⟨[t] :: spans, ?_, kept.cons_cons t, ?_⟩
    · rw [List.map_cons, merged, joined_singleton]
    · rw [List.flatten_cons, List.singleton_append, List.filter_cons, List.filter_cons, same]

/-! ### Reading on from a stream -/

variable {R : Type} [Regex R]

namespace TokenStream

/-- The pieces that are still to come. -/
def left? (table : OperatorTable R) (s : TokenStream) : Option (List Token) :=
  (s.pieces.toList? table).map (s.pending.toList ++ ·)

/-- The cursor stands where the pieces to come begin in the text, and what is pending is no part of
a name. -/
structure Ready (text : List Char) (s : TokenStream) : Prop where
  whole : s.text = text
  aligned : Pieces.Aligned text s.pieces
  pending : ∀ t, s.pending = some t → t.inRun = false

/-- The piece has just been read and ends at the cursor. -/
def JustRead (text : List Char) (t : Token) (s : TokenStream) : Prop :=
  ∃ front rest, text = front ++ (t.text.toList ++ rest) ∧ s.pieces.rest? = some rest ∧
    s.pieces.cursor = Text.byteLength front + Text.byteLength t.text.toList

variable {table : OperatorTable R} {text : List Char} {s after : TokenStream} {t : Token}
  {ts us : List Token}

theorem ready_ofText (text : List Char) : (ofText text).Ready text where
  whole := rfl
  aligned := ⟨[], text, rfl, rfl, rfl⟩
  pending := nofun

theorem left?_of_none_pending (none_pending : s.pending = none) :
    s.left? table = s.pieces.toList? table := by
  rw [left?, none_pending]
  exact Option.map_id'

/-- The piece that is taken is the first of those to come. One that was pending is no part of a name,
so a name has just been read. -/
theorem takePiece_spec (finds : table.FindsPrefixes) (ready : s.Ready text)
    (left : s.left? table = some ts) :
    s.takePiece table = .ended ∧ ts = [] ∨
      ∃ t after us, s.takePiece table = .gives t after ∧ ts = t :: us ∧
        after.left? table = some us ∧ after.pending = none ∧ after.Ready text ∧
        (t.inRun = true → JustRead text t after) := by
  obtain ⟨whole, aligned, never_run⟩ := ready
  rw [takePiece]
  cases pending : s.pending with
  | some t =>
    rw [left?, pending] at left
    obtain ⟨us, others, rfl⟩ := Option.map_eq_some_iff.mp left
    refine .inr ⟨t, _, us, rfl, rfl, ?_, rfl, ⟨whole, aligned, nofun⟩, fun run => ?_⟩
    · rw [left?_of_none_pending rfl, others]
    · rw [never_run t pending] at run
      cases run
  | none =>
    rw [left?_of_none_pending pending] at left
    rcases Pieces.next_cases left with ⟨ended, rfl⟩ | ⟨t, pieces, us, step, others, rfl⟩
    · exact .inl ⟨by simp only [ended, Next.map], rfl⟩
    · obtain ⟨front, rest, split, here, cursor⟩ := id aligned
      obtain ⟨behind, here', after, moved⟩ := Pieces.exists_rest_of_next finds step
      obtain rfl := Option.some.inj (here.symm.trans here')
      refine .inr ⟨t, { s with pieces, pending := none }, us, ?_, rfl, ?_, rfl,
        ⟨whole, aligned.next finds step, nofun⟩, fun _ => ⟨front, behind, split, after, ?_⟩⟩
      · simp only [step, Next.map]
      · rwa [left?_of_none_pending rfl]
      · rw [moved, cursor, Text.byteLength_toList]

theorem taken_spec (finds : table.FindsPrefixes) (ready : s.Ready text)
    (left : s.left? table = some ts) (taken : s.takePiece table = .gives t after) :
    ∃ us, ts = t :: us ∧ after.left? table = some us ∧ after.pending = none ∧ after.Ready text ∧
      (t.inRun = true → JustRead text t after) := by
  rcases takePiece_spec finds ready left with ⟨ended, -⟩ | ⟨t', after', us, taken', spec⟩
  · cases taken.symm.trans ended
  · cases taken.symm.trans taken'
    exact ⟨us, spec⟩

theorem stop_of_span (span : List Token) (cursor : Nat) :
    (if span = [] then cursor else cursor + Text.byteLength (written span)) =
      cursor + Text.byteLength (written span) := by
  split
  · next no_more =>
    rw [no_more]
    rfl
  · rfl

/-- A name goes on over the run that it starts, and reaches as far as the last name in it. -/
theorem extendName?_spec (finds : table.FindsPrefixes) (ready : s.Ready text)
    (none_pending : s.pending = none) (left : s.left? table = some ts) (stop : Nat) :
    ∃ after, extendName? table s stop =
        some (if nameSpan ts = [] then stop
          else s.pieces.cursor + Text.byteLength (written (nameSpan ts)), after) ∧
      after.left? table = some (afterRun ts) ∧ after.Ready text := by
  rw [left?_of_none_pending none_pending] at left
  fun_induction extendName? table s stop generalizing ts with
  | case1 s stop panicked =>
    rw [Pieces.toList?_eq_none panicked] at left
    cases left
  | case2 s stop ended =>
    rw [Pieces.toList?_eq_nil ended] at left
    cases left
    refine ⟨s, rfl, ?_, ready⟩
    rw [left?_of_none_pending none_pending, Pieces.toList?_eq_nil ended]
    rfl
  | case3 s stop t pieces step lt name ih =>
    obtain ⟨us, others, rfl⟩ := Pieces.exists_of_toList?_eq_some step left
    obtain ⟨after, extended, rest, ready_after⟩ :=
      ih ⟨ready.whole, ready.aligned.next finds step, ready.pending⟩ none_pending others
    refine ⟨after, ?_, ?_, ready_after⟩
    · rw [extended, nameSpan_name name, if_neg (List.cons_ne_nil _ _), written_cons,
        Text.byteLength_append, ← Nat.add_assoc, ← Pieces.cursor_of_next step]
      exact congrArg (fun stop => some (stop, after)) (stop_of_span _ _)
    · rw [rest, afterRun_cons (Token.inRun_of_name name)]
  | case4 s stop t pieces step lt not_name blank ih =>
    obtain ⟨us, others, rfl⟩ := Pieces.exists_of_toList?_eq_some step left
    obtain ⟨after, extended, rest, ready_after⟩ :=
      ih ⟨ready.whole, ready.aligned.next finds step, ready.pending⟩ none_pending others
    refine ⟨after, ?_, ?_, ready_after⟩
    · rw [extended, nameSpan_blank blank]
      by_cases no_more : nameSpan us = []
      · rw [if_pos no_more, if_pos no_more, if_pos rfl]
      · rw [if_neg no_more, if_neg no_more, if_neg (List.cons_ne_nil _ _), written_cons,
          Text.byteLength_append, ← Nat.add_assoc, ← Pieces.cursor_of_next step]
    · rw [rest, afterRun_cons (Token.inRun_of_blank blank)]
  | case5 s stop t pieces step lt not_name not_blank =>
    obtain ⟨us, others, rfl⟩ := Pieces.exists_of_toList?_eq_some step left
    have other : t.inRun = false := Token.inRun_of_other not_name not_blank
    refine ⟨{ s with pieces, pending := some t }, ?_, ?_, ready.whole,
      ready.aligned.next finds step, ?_⟩
    · rw [nameSpan_other other, if_pos rfl]
    · rw [left?, others, afterRun_other other]
      rfl
    · intro t' same
      cases same
      exact other

/-- The name that starts with a piece is the span of it, cut from the text. -/
theorem mergeName?_spec (finds : table.FindsPrefixes) (ready : after.Ready text)
    (none_pending : after.pending = none) (left : after.left? table = some us)
    (name : t.kind = .name) (first : JustRead text t after) :
    ∃ behind, mergeName? table after t =
        some (⟨.name, String.ofList (written (nameSpan (t :: us)))⟩, behind) ∧
      behind.left? table = some (afterRun us) ∧ behind.Ready text := by
  obtain ⟨front, rest, split, here, cursor⟩ := first
  obtain ⟨behind, extended, left_behind, ready_behind⟩ :=
    extendName?_spec finds ready none_pending left after.pieces.cursor
  refine ⟨behind, ?_, left_behind, ready_behind⟩
  have rest_written : written us = rest := by
    rw [left?_of_none_pending none_pending] at left
    obtain ⟨us', all, spelled, -⟩ := Pieces.exists_toList? finds here
    obtain rfl := Option.some.inj (left.symm.trans all)
    exact spelled
  obtain ⟨more, span_split⟩ := nameSpan_prefix us
  have start : after.pieces.cursor - t.text.utf8ByteSize = Text.byteLength front := by
    rw [cursor, Text.byteLength_toList, Nat.add_sub_cancel]
  have stop : after.pieces.cursor + Text.byteLength (written (nameSpan us)) =
      Text.byteLength front + Text.byteLength (written (nameSpan (t :: us))) := by
    rw [nameSpan_name name, written_cons, Text.byteLength_append, ← Nat.add_assoc, ← cursor]
  have whole : after.text = front ++ (written (nameSpan (t :: us)) ++ written more) := by
    rw [ready.whole, split, nameSpan_name name, written_cons, List.append_assoc, ← written_append,
      span_split, rest_written]
  rw [stop_of_span, stop] at extended
  rw [mergeName?, extended]
  simp only [Option.bind_eq_bind, Option.bind_some, start, whole, Text.slice?_append]
  rfl

/-- One token at a time the stream does what merging does to all the pieces to come. -/
theorem next_spec (finds : table.FindsPrefixes) (ready : s.Ready text)
    (left : s.left? table = some ts) :
    s.next table = .ended ∧ mergeNames ts = [] ∨
      ∃ t after us, s.next table = .gives t after ∧ mergeNames ts = t :: mergeNames us ∧
        after.left? table = some us ∧ after.Ready text := by
  fun_induction next table s generalizing ts with
  | case1 s panicked =>
    rcases takePiece_spec finds ready left with ⟨ended, -⟩ | ⟨t, after, us, taken, -⟩
    · cases panicked.symm.trans ended
    · cases panicked.symm.trans taken
  | case2 s ended =>
    rcases takePiece_spec finds ready left with ⟨-, rfl⟩ | ⟨t, after, us, taken, -⟩
    · exact .inl ⟨rfl, mergeNames_nil⟩
    · cases ended.symm.trans taken
  | case3 s t after taken lt blank ih =>
    obtain ⟨us, rfl, left_after, -, ready_after, -⟩ := taken_spec finds ready left taken
    rw [mergeNames_blank blank]
    exact ih ready_after left_after
  | case4 s t after taken lt blank name panicked =>
    obtain ⟨us, rfl, left_after, none_pending, ready_after, first⟩ :=
      taken_spec finds ready left taken
    obtain ⟨behind, merged, -⟩ := mergeName?_spec finds ready_after none_pending left_after name
      (first (Token.inRun_of_name name))
    cases panicked.symm.trans merged
  | case5 s t after taken lt blank name token behind merged =>
    obtain ⟨us, rfl, left_after, none_pending, ready_after, first⟩ :=
      taken_spec finds ready left taken
    obtain ⟨behind', merged', left_behind, ready_behind⟩ :=
      mergeName?_spec finds ready_after none_pending left_after name
        (first (Token.inRun_of_name name))
    cases merged.symm.trans merged'
    exact .inr ⟨_, behind, _, rfl, mergeNames_name name, left_behind, ready_behind⟩
  | case6 s t after taken lt blank name =>
    obtain ⟨us, rfl, left_after, -, ready_after, -⟩ := taken_spec finds ready left taken
    have other : t.inRun = false := Token.inRun_of_other name blank
    exact .inr ⟨t, after, us, rfl, mergeNames_other other, left_after, ready_after⟩

theorem toList?_eq_mergeNames (finds : table.FindsPrefixes) (ready : s.Ready text)
    (left : s.left? table = some ts) : s.toList? table = some (mergeNames ts) := by
  fun_induction toList? table s generalizing ts with
  | case1 s panicked =>
    rcases next_spec finds ready left with ⟨ended, -⟩ | ⟨t, after, us, step, -⟩
    · cases panicked.symm.trans ended
    · cases panicked.symm.trans step
  | case2 s ended =>
    rcases next_spec finds ready left with ⟨-, merged⟩ | ⟨t, after, us, step, -⟩
    · rw [merged]
    · cases ended.symm.trans step
  | case3 s t after step lt ih =>
    rcases next_spec finds ready left with ⟨ended, -⟩ | ⟨t', after', us, step', merged, rest, ready'⟩
    · cases step.symm.trans ended
    · cases step.symm.trans step'
      rw [ih ready' rest, merged]
      rfl

end TokenStream

theorem toList?_ofText_eq_mergeNames (table : OperatorTable R) [prefixes : table.TakesPrefixes]
    (text : List Char) :
    (TokenStream.ofText text).toList? table = some (mergeNames (piecesOf table text)) := by
  refine TokenStream.toList?_eq_mergeNames prefixes.findsPrefixes (TokenStream.ready_ofText text) ?_
  rw [TokenStream.left?_of_none_pending rfl]
  exact toList?_ofText table text

/-- With operators that take non-empty prefixes, whatever regular expressions they are made of, the
stream gives what merging makes of all the pieces. No blank is left, no two names follow each other,
and nothing but blanks is dropped. -/
theorem toList_ofText_merges {table : OperatorTable R} (prefixes : table.TakesPrefixes)
    (text : List Char) :
    ∃ pieces, (Pieces.ofText text).toList? table = some pieces ∧
      (TokenStream.ofText text).toList? table = some (mergeNames pieces) ∧
      (∀ t ∈ mergeNames pieces, t.kind ≠ .blank) ∧ (mergeNames pieces).IsChain Token.Apart ∧
      ∃ spans, spans.map joined = mergeNames pieces ∧ OmitsBlanks spans pieces :=
  ⟨piecesOf table text, toList?_ofText table text, toList?_ofText_eq_mergeNames table text,
    ne_blank_of_mem_mergeNames _, isChain_mergeNames _, exists_spans _⟩

/-- Operators may be names and blanks, and blanks need not end names. -/
theorem toList_of_name_operators :
    ∃ (table : OperatorTable Pattern) (pieces : List Token), OperatorTable.ofPatterns?
        [("é+", .name, true), ("_", .blank, false), (" ", .blank, true), ("\\+", .plus, true)] =
          some table ∧
      table.TakesPrefixes ∧ (Pieces.ofText " éa_ _éé_+ b ".toList).toList? table = some pieces ∧
      mergeNames pieces = [⟨.name, "éa_ _éé"⟩, ⟨.plus, "+"⟩, ⟨.name, "b"⟩] ∧
      (TokenStream.ofText " éa_ _éé_+ b ".toList).toList? table =
        some [⟨.name, "éa_ _éé"⟩, ⟨.plus, "+"⟩, ⟨.name, "b"⟩] ∧
      ∃ spans, spans.map joined = [⟨.name, "éa_ _éé"⟩, ⟨.plus, "+"⟩, ⟨.name, "b"⟩] ∧
        OmitsBlanks spans pieces := by
  let table : OperatorTable Pattern :=
    ⟨[⟨.name, true, .seq .start (.plus true (.literal ['é']))⟩,
      ⟨.blank, false, .seq .start (.literal ['_'])⟩, ⟨.blank, true, .seq .start (.literal [' '])⟩,
      ⟨.plus, true, .seq .start (.literal ['+'])⟩]⟩
  have read : OperatorTable.ofPatterns? [("é+", .name, true), ("_", .blank, false),
      (" ", .blank, true), ("\\+", .plus, true)] = some table := by decide
  have prefixes : table.TakesPrefixes := OperatorTable.takesPrefixes_of_patterns read (by decide)
  obtain ⟨pieces, all, merged, -, -, spans⟩ :=
    toList_ofText_merges prefixes " éa_ _éé_+ b ".toList
  have tokens : (TokenStream.ofText " éa_ _éé_+ b ".toList).toList? table =
      some [⟨.name, "éa_ _éé"⟩, ⟨.plus, "+"⟩, ⟨.name, "b"⟩] := by
    decide +kernel
  have same := Option.some.inj (merged.symm.trans tokens)
  rw [same] at spans
  exact ⟨table, pieces, read, prefixes, all, same, tokens, spans⟩

/-! ### The tokens of a text -/

section

variable (table : OperatorTable R) [table.TakesPrefixes] (text : String)

theorem isSome_tokenize? : (tokenize? table text).isSome = true := by
  rw [tokenize?, toList?_ofText_eq_mergeNames]
  rfl

/-- The tokens of a text, which a table that takes prefixes reads without a panic. -/
def tokenize : List Token := (tokenize? table text).get (isSome_tokenize? table text)

theorem tokenize?_eq : tokenize? table text = some (tokenize table text) := (Option.some_get _).symm

theorem tokenize_eq : tokenize table text = mergeNames (piecesOf table text.toList) :=
  Option.some.inj ((tokenize?_eq table text).symm.trans (toList?_ofText_eq_mergeNames table _))

end

end MathShorthand
