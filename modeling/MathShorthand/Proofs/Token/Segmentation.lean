import MathShorthand.Proofs.Token.Slices

/-!
# The pieces of a text

What stands at a place of a text settles the piece there (`Justified`): the first operator that
recognizes the text from there on takes it, and where there is none a name goes on to the next
operator that ends names. Reading gives one piece after another until the text is used up, each of
them justified, and no other pieces that make up the text are (`segments_iff`).
-/

namespace MathShorthand

/-- The texts of some tokens, one after another. -/
def written (ts : List Token) : List Char := ts.flatMap fun t => t.text.toList

@[simp] theorem written_nil : written [] = [] := rfl

@[simp] theorem written_cons (t : Token) (ts : List Token) :
    written (t :: ts) = t.text.toList ++ written ts := rfl

@[simp] theorem written_append (a b : List Token) : written (a ++ b) = written a ++ written b := by
  simp [written]

variable {R : Type} [Regex R]

/-! ### What an operator takes -/

namespace OperatorTable

/-- An operator for `kind` takes `piece` from the text, and no operator before it takes any. -/
def FirstTakes (table : OperatorTable R) (text : List Char) (kind : Kind) (piece : List Char) :
    Prop :=
  ∃ before op after, table.operators = before ++ op :: after ∧ op.kind = kind ∧
    op.recognize text = some piece ∧ ∀ other ∈ before, other.recognize text = none

def NoneTakes (table : OperatorTable R) (text : List Char) : Prop :=
  ∀ op ∈ table.operators, op.recognize text = none

/-- A name ends in front of the text. -/
def Breaks (table : OperatorTable R) (text : List Char) : Prop :=
  ∃ op ∈ table.operators, op.breaksNames = true ∧ op.recognize text ≠ none

variable {table : OperatorTable R} {text : List Char}

theorem FirstTakes.congr {text' piece : List Char} {kind : Kind}
    (first : table.FirstTakes text kind piece)
    (found : ∀ op ∈ table.operators, op.recognize text = some piece →
      op.recognize text' = some piece)
    (missed : ∀ op ∈ table.operators, op.recognize text = none → op.recognize text' = none) :
    table.FirstTakes text' kind piece := by
  obtain ⟨before, op, after, split, same, recognized, none_before⟩ := first
  have listed {other : Operator R} (mem : other ∈ before ++ op :: after) :
      other ∈ table.operators := split ▸ mem
  refine ⟨before, op, after, split, same, ?_, ?_⟩
  · exact found op (listed (List.mem_append_right before List.mem_cons_self)) recognized
  · intro other mem
    exact missed other (listed (List.mem_append_left _ mem)) (none_before other mem)

theorem FirstTakes.exists_mem {piece : List Char} {kind : Kind}
    (first : table.FirstTakes text kind piece) :
    ∃ op ∈ table.operators, op.kind = kind ∧ op.recognize text = some piece := by
  obtain ⟨before, op, after, split, same, recognized, -⟩ := first
  refine ⟨op, ?_, same, recognized⟩
  rw [split]
  exact List.mem_append_right before List.mem_cons_self

theorem find?_eq_none_iff : table.find? text = none ↔ table.NoneTakes text := by
  unfold find? findAmong? NoneTakes
  simp only [List.findSome?_eq_none_iff, Option.map_eq_none_iff]

theorem isSome_findBreaking?_iff : (table.findBreaking? text).isSome = true ↔ table.Breaks text := by
  unfold findBreaking? findAmong? Breaks
  rw [List.findSome?_isSome_iff]
  constructor
  · rintro ⟨op, mem, found⟩
    obtain ⟨mem, breaks⟩ := List.mem_filter.mp mem
    refine ⟨op, mem, breaks, fun missed => ?_⟩
    rw [missed] at found
    cases found
  · rintro ⟨op, mem, breaks, found⟩
    refine ⟨op, List.mem_filter.mpr ⟨mem, breaks⟩, ?_⟩
    rw [Option.isSome_map]
    exact Option.isSome_iff_ne_none.mpr found

end OperatorTable

/-! ### The piece at a place -/

/-- The piece `t` is the one to read in front of `rest`. -/
inductive Justified (table : OperatorTable R) : Token → List Char → Prop where
  | operator {t : Token} {rest : List Char}
      (first : table.FirstTakes (t.text.toList ++ rest) t.kind t.text.toList) :
      Justified table t rest
  /-- A name has a first character in any case, and goes on up to a place where it has to end. -/
  | name {c : Char} {more rest : List Char} (free : table.NoneTakes (c :: more ++ rest))
      (goes_on : ∀ front back, more = front ++ back → back ≠ [] → ¬table.Breaks (back ++ rest))
      (ends : rest = [] ∨ table.Breaks rest) :
      Justified table ⟨.name, String.ofList (c :: more)⟩ rest

/-- Each piece is the one to read in front of those after it. -/
def EachJustified (table : OperatorTable R) : List Token → Prop
  | [] => True
  | t :: ts => Justified table t (written ts) ∧ EachJustified table ts

/-- The pieces make up the text, and each of them is justified where it stands. -/
def Segments (table : OperatorTable R) (text : List Char) (ts : List Token) : Prop :=
  written ts = text ∧ EachJustified table ts

namespace Pieces

variable {table : OperatorTable R} {s s' : Pieces} {t : Token} {text : List Char}

theorem untilBreak_eq_iff (more rest : List Char) :
    untilBreak table (more ++ rest) = more ↔
      (∀ front back, more = front ++ back → back ≠ [] → ¬table.Breaks (back ++ rest)) ∧
        (rest = [] ∨ table.Breaks rest) := by
  induction more with
  | nil =>
    have no_back : ∀ front back : List Char, [] = front ++ back → back ≠ [] →
        ¬table.Breaks (back ++ rest) := by
      intro front back split some_back
      exact absurd (List.append_eq_nil_iff.mp split.symm).2 some_back
    cases rest with
    | nil => exact iff_of_true rfl ⟨no_back, .inl rfl⟩
    | cons c rest =>
      rw [List.nil_append, untilBreak, ← OperatorTable.isSome_findBreaking?_iff]
      constructor
      · intro stops
        refine ⟨no_back, .inr ?_⟩
        split at stops
        · next breaks => exact breaks
        · cases stops
      · rintro ⟨-, ends | breaks⟩
        · cases ends
        · rw [if_pos breaks]
  | cons c more ih =>
    have breaks_iff : (table.findBreaking? (c :: (more ++ rest))).isSome = true ↔
        table.Breaks (c :: (more ++ rest)) := OperatorTable.isSome_findBreaking?_iff
    rw [List.cons_append, untilBreak]
    by_cases breaks : table.Breaks (c :: (more ++ rest))
    · rw [if_pos (breaks_iff.mpr breaks)]
      refine iff_of_false (by simp) ?_
      rintro ⟨goes_on, -⟩
      exact goes_on [] (c :: more) rfl (by simp) breaks
    · rw [if_neg (mt breaks_iff.mp breaks), List.cons.injEq, and_iff_right rfl, ih]
      refine and_congr_left fun _ => ?_
      constructor
      · intro goes_on front back split some_back
        rcases List.cons_eq_append_iff.mp split with ⟨rfl, rfl⟩ | ⟨front', rfl, inner⟩
        · exact breaks
        · exact goes_on front' back inner some_back
      · intro goes_on front back split some_back
        exact goes_on (c :: front) back (congrArg (c :: ·) split) some_back

/-- A piece is justified just if it is the one at the front. -/
theorem justified_iff {rest : List Char} :
    Justified table t rest ↔
      front? table (t.text.toList ++ rest) = some (t.kind, t.text.toList) := by
  constructor
  · intro justified
    cases justified with
    | operator first =>
      have found := OperatorTable.find?_eq_some_iff.mpr first
      have some_text := OperatorTable.find?_ne_nil found
      generalize t.text.toList = piece at found some_text
      cases piece with
      | nil => exact absurd rfl some_text
      | cons c piece => rw [List.cons_append, front?, ← List.cons_append, found]
    | @name c more rest free goes_on ends =>
      have found := OperatorTable.find?_eq_none_iff.mpr free
      have stops := (untilBreak_eq_iff more rest).mpr ⟨goes_on, ends⟩
      rw [String.toList_ofList, List.cons_append, front?, ← List.cons_append, found, stops]
  · intro found
    obtain ⟨kind, text⟩ := t
    generalize split : text.toList ++ rest = whole at found
    unfold front? at found
    split at found
    · cases found
    · next c whole =>
      split at found
      · next first =>
        cases found
        exact .operator (OperatorTable.find?_eq_some_iff.mp (split ▸ first))
      · next free =>
        obtain ⟨named, same⟩ := Prod.mk.inj (Option.some.inj found)
        simp only at named same
        subst named
        rw [← same, List.cons_append] at split
        obtain ⟨-, split⟩ := List.cons.inj split
        have stops : untilBreak table (untilBreak table whole ++ rest) = untilBreak table whole := by
          rw [split]
        obtain ⟨goes_on, ends⟩ := (untilBreak_eq_iff _ _).mp stops
        rw [← String.ofList_toList (s := text), ← same]
        refine .name ?_ goes_on ends
        rw [List.cons_append, split]
        exact OperatorTable.find?_eq_none_iff.mp free

theorem toList_ne_nil_of_justified {rest : List Char} (justified : Justified table t rest) :
    t.text.toList ≠ [] :=
  front?_ne_nil (justified_iff.mp justified)

/-! ### Reading on and on -/

theorem toList?_eq_nil (ended : s.next table = .ended) : s.toList? table = some [] := by
  rw [toList?]
  split
  · next panicked => cases ended.symm.trans panicked
  · rfl
  · next found => cases ended.symm.trans found

theorem toList?_eq_cons (step : s.next table = .gives t s') :
    s.toList? table = (s'.toList? table).map (t :: ·) := by
  rw [toList?]
  split
  · next panicked => cases step.symm.trans panicked
  · next ended => cases step.symm.trans ended
  · next found =>
    cases step.symm.trans found
    rfl

theorem exists_of_toList?_eq_some {ts : List Token} (step : s.next table = .gives t s')
    (all : s.toList? table = some ts) : ∃ us, s'.toList? table = some us ∧ ts = t :: us := by
  rw [toList?_eq_cons step] at all
  obtain ⟨us, others, rfl⟩ := Option.map_eq_some_iff.mp all
  exact ⟨us, others, rfl⟩

theorem toList?_eq_none (panicked : s.next table = .panic) : s.toList? table = none := by
  rw [toList?]
  split
  · rfl
  · next ended => cases panicked.symm.trans ended
  · next found => cases panicked.symm.trans found

/-- Where all pieces can be read, the first of them can. -/
theorem next_cases {ts : List Token} (all : s.toList? table = some ts) :
    s.next table = .ended ∧ ts = [] ∨
      ∃ t s' us, s.next table = .gives t s' ∧ s'.toList? table = some us ∧ ts = t :: us := by
  cases step : s.next table with
  | panic =>
    rw [toList?_eq_none step] at all
    cases all
  | ended =>
    rw [toList?_eq_nil step] at all
    exact .inl ⟨rfl, (Option.some.inj all).symm⟩
  | gives t s' =>
    obtain ⟨us, others, rfl⟩ := exists_of_toList?_eq_some step all
    exact .inr ⟨t, s', us, rfl, others, rfl⟩

/-- What asking for the next piece gives, which is nothing at the end. None is a panic. -/
def given? (table : OperatorTable R) (s : Pieces) : Option (Option Token) :=
  match s.next table with
  | .panic => none
  | .ended => some none
  | .gives t _ => some (some t)

/-- The pieces that are left when one has been asked for. At the end nothing changes any more. -/
def advance (table : OperatorTable R) (s : Pieces) : Pieces :=
  match s.next table with
  | .panic | .ended => s
  | .gives _ s' => s'

/-- The pieces that are left when `k` of them have been asked for. -/
def afterCalls (table : OperatorTable R) : Nat → Pieces → Pieces
  | 0, s => s
  | k + 1, s => afterCalls table k (s.advance table)

theorem afterCalls_of_ended (ended : s.next table = .ended) (k : Nat) :
    s.afterCalls table k = s := by
  induction k with
  | zero => rfl
  | succ k ih =>
    have stays : s.advance table = s := by rw [advance, ended]
    rw [afterCalls, stays, ih]

theorem afterCalls_succ (step : s.next table = .gives t s') (k : Nat) :
    s.afterCalls table (k + 1) = s'.afterCalls table k := by
  rw [afterCalls, advance, step]

/-- The calls one after another give the pieces in order, and nothing after the last of them. -/
theorem given?_afterCalls {ts : List Token} (all : s.toList? table = some ts) (k : Nat) :
    (s.afterCalls table k).given? table = some ts[k]? := by
  induction k generalizing s ts with
  | zero =>
    rw [afterCalls, given?]
    rcases next_cases all with ⟨ended, rfl⟩ | ⟨t, s', us, step, -, rfl⟩
    · rw [ended]
      rfl
    · rw [step]
      rfl
  | succ k ih =>
    rcases next_cases all with ⟨ended, rfl⟩ | ⟨t, s', us, step, others, rfl⟩
    · rw [afterCalls_of_ended ended, given?, ended]
      rfl
    · rw [afterCalls_succ step, List.getElem?_cons_succ]
      exact ih others

theorem cursor_of_next (step : s.next table = .gives t s') :
    s'.cursor = s.cursor + Text.byteLength t.text.toList := by
  obtain ⟨rest, kind, piece, -, -, rfl, rfl⟩ := exists_of_next step
  rw [String.toList_ofList]
  rfl

theorem cursor_afterCalls {ts : List Token} (all : s.toList? table = some ts) (k : Nat) :
    (s.afterCalls table k).cursor = s.cursor + Text.byteLength (written (ts.take k)) := by
  induction k generalizing s ts with
  | zero => rfl
  | succ k ih =>
    rcases next_cases all with ⟨ended, rfl⟩ | ⟨t, s', us, step, others, rfl⟩
    · rw [afterCalls_of_ended ended]
      rfl
    · rw [afterCalls_succ step, List.take_succ_cons, ih others, cursor_of_next step, written_cons,
        Text.byteLength_append, Nat.add_assoc]

/-! ### The one segmentation -/

theorem next_eq_ended_iff {rest : List Char} (left : s.rest? = some rest) :
    s.next table = .ended ↔ rest = [] := by
  rw [next_of_rest? left, ← front?_eq_none_iff table]
  cases front? table rest <;> simp

theorem front?_of_next {rest : List Char} (left : s.rest? = some (t.text.toList ++ rest))
    (step : s.next table = .gives t s') :
    front? table (t.text.toList ++ rest) = some (t.kind, t.text.toList) := by
  obtain ⟨_, kind, piece, left', found, rfl, -⟩ := exists_of_next step
  obtain rfl := Option.some.inj (left.symm.trans left')
  rw [found, String.toList_ofList]

/-- Reading goes on to the end of the text, and all its pieces are justified. -/
theorem exists_toList? (finds : table.FindsPrefixes) {rest : List Char}
    (left : s.rest? = some rest) :
    ∃ ts, s.toList? table = some ts ∧ written ts = rest ∧ EachJustified table ts := by
  fun_induction toList? table s generalizing rest with
  | case1 s panicked => exact absurd panicked (next_ne_panic left)
  | case2 s ended =>
    obtain rfl := (next_eq_ended_iff left).mp ended
    exact ⟨[], rfl, rfl, trivial⟩
  | case3 s t s' step lt ih =>
    obtain ⟨behind, left', after, -⟩ := exists_rest_of_next finds step
    obtain rfl := Option.some.inj (left.symm.trans left')
    obtain ⟨us, others, spelled, justified⟩ := ih after
    refine ⟨t :: us, by rw [others]; rfl, by rw [written_cons, spelled], ?_, justified⟩
    rw [spelled]
    exact justified_iff.mpr (front?_of_next left step)

theorem toList?_of_eachJustified {ts : List Token} (justified : EachJustified table ts)
    (left : s.rest? = some (written ts)) : s.toList? table = some ts := by
  induction ts generalizing s with
  | nil => exact toList?_eq_nil ((next_eq_ended_iff left).mpr rfl)
  | cons t ts ih =>
    obtain ⟨first, others⟩ := justified
    rw [written_cons] at left
    have step : s.next table = .gives t (s.skip t.text.toList) := by
      rw [next_of_rest? left, justified_iff.mp first]
      simp only [String.ofList_toList]
    have after : (s.skip t.text.toList).rest? = some (written ts) := by
      rw [skip, left, Option.bind_some, Text.dropBytes?_append]
    rw [toList?_eq_cons step, ih others after, Option.map_some]

theorem text_ne_of_eachJustified {ts : List Token} (justified : EachJustified table ts) :
    ∀ t ∈ ts, t.text ≠ "" := by
  induction ts with
  | nil => simp
  | cons t ts ih =>
    obtain ⟨first, others⟩ := justified
    refine List.forall_mem_cons.mpr ⟨fun empty => ?_, ih others⟩
    exact toList_ne_nil_of_justified first (String.toList_eq_nil_iff.mpr empty)

end Pieces

section

variable (table : OperatorTable R) [prefixes : table.TakesPrefixes] (text : List Char)

/-- A table that takes prefixes reads every text to its end. -/
theorem isSome_toList?_ofText : ((Pieces.ofText text).toList? table).isSome = true := by
  obtain ⟨ts, all, -⟩ :=
    Pieces.exists_toList? prefixes.findsPrefixes (Pieces.rest?_ofText text)
  rw [all]
  rfl

/-- The pieces of a text in order. -/
def piecesOf : List Token :=
  ((Pieces.ofText text).toList? table).get (isSome_toList?_ofText table text)

theorem toList?_ofText : (Pieces.ofText text).toList? table = some (piecesOf table text) :=
  (Option.some_get _).symm

variable {table text} in
theorem segments_iff {ts : List Token} : Segments table text ts ↔ ts = piecesOf table text := by
  constructor
  · rintro ⟨rfl, justified⟩
    have all := Pieces.toList?_of_eachJustified justified (Pieces.rest?_ofText _)
    exact Option.some.inj (all.symm.trans (toList?_ofText table (written ts)))
  · rintro rfl
    obtain ⟨ts, all, spelled, justified⟩ :=
      Pieces.exists_toList? prefixes.findsPrefixes (Pieces.rest?_ofText text)
    obtain rfl := Option.some.inj (all.symm.trans (toList?_ofText table text))
    exact ⟨spelled, justified⟩

theorem written_piecesOf : written (piecesOf table text) = text := (segments_iff.mpr rfl).1

theorem eachJustified_piecesOf : EachJustified table (piecesOf table text) :=
  (segments_iff.mpr rfl).2

end

/-- With operators that take non-empty prefixes, whatever regular expressions they are made of,
reading gives the pieces of a text one by one, with the cursor after them, and stops. No call is a
panic. The pieces are not empty, and are the only ones that make up the text and are justified where
they stand. -/
theorem piecesOf_unique_segmentation {table : OperatorTable R} (prefixes : table.TakesPrefixes)
    (text : List Char) :
    ∃ ts, (Pieces.ofText text).toList? table = some ts ∧
      (∀ k, ((Pieces.ofText text).afterCalls table k).given? table = some ts[k]? ∧
        ((Pieces.ofText text).afterCalls table k).cursor =
          Text.byteLength (written (ts.take k))) ∧
      (∀ j k, j ≤ k → ((Pieces.ofText text).afterCalls table j).given? table = some none →
        ((Pieces.ofText text).afterCalls table k).given? table = some none) ∧
      (∀ t ∈ ts, t.text ≠ "") ∧
      ∀ ts', Segments table text ts' ↔ ts' = ts := by
  have all := toList?_ofText table text
  refine ⟨piecesOf table text, all, fun k => ⟨Pieces.given?_afterCalls all k, ?_⟩,
    fun j k le ended => ?_, Pieces.text_ne_of_eachJustified (eachJustified_piecesOf table text),
    fun ts' => segments_iff⟩
  · rw [Pieces.cursor_afterCalls all k, Pieces.ofText, Nat.zero_add]
  · rw [Pieces.given?_afterCalls all, Option.some.injEq, List.getElem?_eq_none_iff] at ended ⊢
    exact Nat.le_trans ended le

/-- The word is no operator inside the name, and `**` is never read, because `*` comes first. -/
theorem piecesOf_shadowed :
    ∃ (table : OperatorTable Pattern) (ts : List Token), OperatorTable.ofPatterns?
        [("to", .upTo, false), ("\\*", .times, true), ("\\*\\*", .looseTimes, true)] = some table ∧
      ts = [⟨.upTo, "to"⟩, ⟨.name, "éto"⟩, ⟨.times, "*"⟩, ⟨.times, "*"⟩] ∧
      table.TakesPrefixes ∧ (Pieces.ofText "toéto**".toList).toList? table = some ts ∧
      (∀ k, ((Pieces.ofText "toéto**".toList).afterCalls table k).given? table = some ts[k]? ∧
        ((Pieces.ofText "toéto**".toList).afterCalls table k).cursor =
          Text.byteLength (written (ts.take k))) ∧
      ∀ ts', Segments table "toéto**".toList ts' ↔ ts' = ts := by
  let table : OperatorTable Pattern := ⟨[⟨.upTo, false, .seq .start (.literal ['t', 'o'])⟩,
    ⟨.times, true, .seq .start (.literal ['*'])⟩,
    ⟨.looseTimes, true, .seq .start (.literal ['*', '*'])⟩]⟩
  have read : OperatorTable.ofPatterns?
      [("to", .upTo, false), ("\\*", .times, true), ("\\*\\*", .looseTimes, true)] =
        some table := by decide
  have prefixes : table.TakesPrefixes := OperatorTable.takesPrefixes_of_patterns read (by decide)
  obtain ⟨ts, all, calls, -, -, unique⟩ := piecesOf_unique_segmentation prefixes "toéto**".toList
  have pieces : (Pieces.ofText "toéto**".toList).toList? table =
      some [⟨.upTo, "to"⟩, ⟨.name, "éto"⟩, ⟨.times, "*"⟩, ⟨.times, "*"⟩] := by
    decide +kernel
  obtain rfl := Option.some.inj (all.symm.trans pieces)
  exact ⟨table, _, read, rfl, prefixes, all, calls, unique⟩

end MathShorthand
