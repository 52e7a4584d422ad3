import MathShorthand.Pattern.Match

/-!
# The pieces that a pattern describes

`Takes` says which pieces of text a pattern describes, without any order of preference. Every match
that is found is such a piece (`ahead_of_stop?`). What can be taken further on in a text can be
taken at its start as well (`Takes.atStart`).
-/

namespace MathShorthand.Pattern

/-- The pattern describes the piece, which stands at the very start of the text if `atStart`. -/
inductive Takes : Pattern → Bool → List Char → Prop where
  | empty {atStart : Bool} : Takes .empty atStart []
  | start : Takes .start true []
  | literal {atStart : Bool} (text : List Char) : Takes (.literal text) atStart text
  | one {atStart folded : Bool} {set : CharSet} {c : Char} (within : set.contains c = true) :
      Takes (.one folded set) atStart [c]
  | group {atStart : Bool} {a : Pattern} {u : List Char} (inner : Takes a atStart u) :
      Takes (.group a) atStart u
  | seq {atStart : Bool} {a b : Pattern} {u v : List Char} (first : Takes a atStart u)
      (second : Takes b (atStart && u.isEmpty) v) : Takes (.seq a b) atStart (u ++ v)
  | altLeft {atStart : Bool} {a b : Pattern} {u : List Char} (left : Takes a atStart u) :
      Takes (.alt a b) atStart u
  | altRight {atStart : Bool} {a b : Pattern} {u : List Char} (right : Takes b atStart u) :
      Takes (.alt a b) atStart u
  | optNone {atStart greedy : Bool} {a : Pattern} : Takes (.opt greedy a) atStart []
  | optSome {atStart greedy : Bool} {a : Pattern} {u : List Char} (once : Takes a atStart u) :
      Takes (.opt greedy a) atStart u
  | starNone {atStart greedy : Bool} {a : Pattern} : Takes (.star greedy a) atStart []
  | starMore {atStart greedy : Bool} {a : Pattern} {u v : List Char} (once : Takes a atStart u)
      (more : Takes (.star greedy a) (atStart && u.isEmpty) v) :
      Takes (.star greedy a) atStart (u ++ v)
  | plus {atStart greedy : Bool} {a : Pattern} {u v : List Char} (once : Takes a atStart u)
      (more : Takes (.star greedy a) (atStart && u.isEmpty) v) :
      Takes (.plus greedy a) atStart (u ++ v)

/-- The start of the text only adds to what can be taken. -/
theorem Takes.atStart {p : Pattern} {s : Bool} {piece : List Char} (takes : p.Takes s piece) :
    p.Takes true piece := by
  have after {b : Pattern} {s : Bool} {u v : List Char} (later : b.Takes (s && u.isEmpty) v)
      (here : b.Takes true v) : b.Takes (true && u.isEmpty) v := by
    cases u with
    | nil => exact here
    | cons c u => simpa using later
  induction takes with
  | empty => exact .empty
  | start => exact .start
  | literal text => exact .literal text
  | one within => exact .one within
  | group _ ih => exact .group ih
  | seq _ second ih₁ ih₂ => exact .seq ih₁ (after second ih₂)
  | altLeft _ ih => exact .altLeft ih
  | altRight _ ih => exact .altRight ih
  | optNone => exact .optNone
  | optSome _ ih => exact .optSome ih
  | starNone => exact .starNone
  | starMore _ more ih₁ ih₂ => exact .starMore ih₁ (after more ih₂)
  | plus _ more ih₁ ih₂ => exact .plus ih₁ (after more ih₂)

theorem not_takes_of_anchored {p : Pattern} (anchored : p.anchored = true) (piece : List Char) :
    ¬p.Takes false piece := by
  intro takes
  generalize past : false = s at takes
  induction takes with
  | start => cases past
  | group _ ih => exact ih anchored past
  | seq first second ih₁ ih₂ =>
    subst past
    rcases (Bool.or_eq_true _ _).mp anchored with left | right
    · exact ih₁ left rfl
    · exact ih₂ right rfl
  | altLeft _ ih => exact ih ((Bool.and_eq_true _ _).mp anchored).1 past
  | altRight _ ih => exact ih ((Bool.and_eq_true _ _).mp anchored).2 past
  | plus once _ ih _ => exact ih anchored past
  | _ => cases anchored

/-! ### What lies ahead of a spot -/

/-- The spot after a piece. -/
def Spot.after (s : Spot) (piece rest : List Char) : Spot := ⟨s.offset + piece.length, rest⟩

/-- The pattern describes a piece at the spot, and what is asked for holds after the piece. -/
def Ahead (p : Pattern) (Q : Spot → Prop) (s : Spot) : Prop :=
  ∃ u v, s.rest = u ++ v ∧ p.Takes (s.offset == 0) u ∧ Q (s.after u v)

variable {Q : Spot → Prop} {s : Spot}

theorem after_nil {rest : List Char} (split : s.rest = [] ++ rest) : s.after [] rest = s := by
  obtain rfl : s.rest = rest := split
  rfl

theorem after_after (s : Spot) (u v w x : List Char) :
    (s.after u v).after w x = s.after (u ++ w) x := by
  simp [Spot.after, Nat.add_assoc]

theorem start_after (s : Spot) (u v : List Char) :
    ((s.after u v).offset == 0) = (s.offset == 0 && u.isEmpty) := by
  cases u <;> simp [Spot.after]

theorem ahead_empty_iff : Ahead .empty Q s ↔ Q s := by
  constructor
  · rintro ⟨u, v, split, takes, holds⟩
    cases takes
    rwa [after_nil split] at holds
  · exact fun holds => ⟨[], s.rest, rfl, .empty, holds⟩

theorem ahead_start_iff : Ahead .start Q s ↔ s.offset = 0 ∧ Q s := by
  constructor
  · rintro ⟨u, v, split, takes, holds⟩
    generalize at_start : (s.offset == 0) = b at takes
    cases takes
    rw [after_nil split] at holds
    exact ⟨beq_iff_eq.mp at_start, holds⟩
  · rintro ⟨at_start, holds⟩
    exact ⟨[], s.rest, rfl, beq_iff_eq.mpr at_start ▸ .start, holds⟩

theorem ahead_literal_iff {text : List Char} :
    Ahead (.literal text) Q s ↔ ∃ v, s.rest = text ++ v ∧ Q (s.after text v) := by
  constructor
  · rintro ⟨u, v, split, takes, holds⟩
    cases takes
    exact ⟨v, split, holds⟩
  · rintro ⟨v, split, holds⟩
    exact ⟨text, v, split, .literal text, holds⟩

theorem ahead_one_iff {folded : Bool} {set : CharSet} :
    Ahead (.one folded set) Q s ↔
      ∃ c v, s.rest = c :: v ∧ set.contains c = true ∧ Q (s.after [c] v) := by
  constructor
  · rintro ⟨u, v, split, takes, holds⟩
    cases takes with
    | one within => exact ⟨_, v, split, within, holds⟩
  · rintro ⟨c, v, split, within, holds⟩
    exact ⟨[c], v, split, .one within, holds⟩

theorem ahead_group_iff {a : Pattern} : Ahead (.group a) Q s ↔ Ahead a Q s := by
  constructor
  · rintro ⟨u, v, split, takes, holds⟩
    cases takes with
    | group inner => exact ⟨u, v, split, inner, holds⟩
  · rintro ⟨u, v, split, inner, holds⟩
    exact ⟨u, v, split, .group inner, holds⟩

theorem ahead_ahead_iff {a b : Pattern} :
    Ahead a (Ahead b Q) s ↔
      ∃ u v rest, s.rest = (u ++ v) ++ rest ∧ a.Takes (s.offset == 0) u ∧
        b.Takes (s.offset == 0 && u.isEmpty) v ∧ Q (s.after (u ++ v) rest) := by
  constructor
  · rintro ⟨u, rest, split, first, v, rest', split', second, holds⟩
    obtain rfl : rest = v ++ rest' := split'
    rw [start_after] at second
    rw [after_after] at holds
    exact ⟨u, v, rest', by rw [split, List.append_assoc], first, second, holds⟩
  · rintro ⟨u, v, rest, split, first, second, holds⟩
    rw [List.append_assoc] at split
    refine ⟨u, v ++ rest, split, first, v, rest, rfl, ?_, ?_⟩
    · rwa [start_after]
    · rwa [after_after]

theorem ahead_seq_iff {a b : Pattern} : Ahead (.seq a b) Q s ↔ Ahead a (Ahead b Q) s := by
  rw [ahead_ahead_iff]
  constructor
  · rintro ⟨w, rest, split, takes, holds⟩
    cases takes with
    | seq first second => exact ⟨_, _, rest, split, first, second, holds⟩
  · rintro ⟨u, v, rest, split, first, second, holds⟩
    exact ⟨u ++ v, rest, split, .seq first second, holds⟩

theorem ahead_alt_iff {a b : Pattern} : Ahead (.alt a b) Q s ↔ Ahead a Q s ∨ Ahead b Q s := by
  constructor
  · rintro ⟨u, v, split, takes, holds⟩
    cases takes with
    | altLeft left => exact .inl ⟨u, v, split, left, holds⟩
    | altRight right => exact .inr ⟨u, v, split, right, holds⟩
  · rintro (⟨u, v, split, left, holds⟩ | ⟨u, v, split, right, holds⟩)
    · exact ⟨u, v, split, .altLeft left, holds⟩
    · exact ⟨u, v, split, .altRight right, holds⟩

theorem ahead_opt_iff {greedy : Bool} {a : Pattern} :
    Ahead (.opt greedy a) Q s ↔ Ahead a Q s ∨ Q s := by
  constructor
  · rintro ⟨u, v, split, takes, holds⟩
    cases takes with
    | optNone =>
      rw [after_nil split] at holds
      exact .inr holds
    | optSome once => exact .inl ⟨u, v, split, once, holds⟩
  · rintro (⟨u, v, split, once, holds⟩ | holds)
    · exact ⟨u, v, split, .optSome once, holds⟩
    · exact ⟨[], s.rest, rfl, .optNone, holds⟩

theorem ahead_plus_iff {greedy : Bool} {a : Pattern} :
    Ahead (.plus greedy a) Q s ↔ Ahead a (Ahead (.star greedy a) Q) s := by
  rw [ahead_ahead_iff]
  constructor
  · rintro ⟨w, rest, split, takes, holds⟩
    cases takes with
    | plus once more => exact ⟨_, _, rest, split, once, more, holds⟩
  · rintro ⟨u, v, rest, split, once, more, holds⟩
    exact ⟨u ++ v, rest, split, .plus once more, holds⟩

theorem ahead_star_iff {greedy : Bool} {a : Pattern} :
    Ahead (.star greedy a) Q s ↔ Ahead a (Ahead (.star greedy a) Q) s ∨ Q s := by
  rw [ahead_ahead_iff]
  constructor
  · rintro ⟨w, rest, split, takes, holds⟩
    cases takes with
    | starNone =>
      rw [after_nil split] at holds
      exact .inr holds
    | starMore once more => exact .inl ⟨_, _, rest, split, once, more, holds⟩
  · rintro (⟨u, v, rest, split, once, more, holds⟩ | holds)
    · exact ⟨u ++ v, rest, split, .starMore once more, holds⟩
    · exact ⟨[], s.rest, rfl, .starNone, holds⟩

/-! ### What is found lies ahead -/

/-- A match that ends at `stop` is found only at spots where `Q` holds. -/
def FindsOnly (stop : Nat) (next : Continuation) (Q : Spot → Prop) : Prop :=
  ∀ spot tried, next spot tried = .matched stop → Q spot

variable {stop : Nat}

theorem FindsOnly.mono {R : Spot → Prop} {next : Continuation} (only : FindsOnly stop next Q)
    (imp : ∀ s, Q s → R s) : FindsOnly stop next R :=
  fun spot tried found => imp spot (only spot tried found)

theorem FindsOnly.choose {R : Spot → Prop} {choice : Nat} {first second : Continuation}
    (only_first : FindsOnly stop first Q) (only_second : FindsOnly stop second R) :
    FindsOnly stop (choose choice first second) fun s => Q s ∨ R s := by
  intro spot tried found
  simp only [Pattern.choose] at found
  split at found
  · cases found
  · cases attempt : first spot (tried.insert choice spot.offset) with
    | matched stop' =>
      rw [attempt] at found
      cases found
      exact .inl (only_first spot _ attempt)
    | failed tried' =>
      rw [attempt] at found
      exact .inr (only_second spot tried' found)

theorem FindsOnly.chooseMore {R : Spot → Prop} {greedy : Bool} {choice : Nat}
    {more enough : Continuation} (only_more : FindsOnly stop more Q)
    (only_enough : FindsOnly stop enough R) :
    FindsOnly stop (chooseMore greedy choice more enough) fun s => Q s ∨ R s := by
  unfold Pattern.chooseMore
  split
  · exact only_more.choose only_enough
  · exact (only_enough.choose only_more).mono fun s => Or.symm

theorem FindsOnly.again {a : Pattern} {greedy : Bool} {choice : Nat}
    {body : Continuation → Continuation} {enough : Continuation}
    (only_body : ∀ {next R}, FindsOnly stop next R → FindsOnly stop (body next) (Ahead a R))
    (only_enough : FindsOnly stop enough Q) (rounds : Nat) :
    FindsOnly stop (again greedy choice body enough rounds) (Ahead (.star greedy a) Q) := by
  induction rounds with
  | zero => exact fun _ _ found => nomatch found
  | succ rounds ih =>
    exact ((only_body ih).chooseMore only_enough).mono fun s => ahead_star_iff.mpr

/-- A match of the pattern and what follows it is found only where the pattern lies ahead. -/
theorem FindsOnly.run (p : Pattern) (first : Nat) {next : Continuation}
    (only : FindsOnly stop next Q) : FindsOnly stop (run p first next) (Ahead p Q) := by
  induction p generalizing first next Q with
  | empty => exact only.mono fun s => ahead_empty_iff.mpr
  | start =>
    intro spot tried found
    simp only [Pattern.run] at found
    split at found
    · next at_start => exact ahead_start_iff.mpr ⟨at_start, only spot tried found⟩
    · cases found
  | literal text =>
    intro spot tried found
    simp only [Pattern.run] at found
    split at found
    · next begins =>
      obtain ⟨rest, split⟩ := List.isPrefixOf_iff_prefix.mp begins
      refine ahead_literal_iff.mpr ⟨rest, split.symm, ?_⟩
      rw [← split, List.drop_left] at found
      exact only _ tried found
    · cases found
  | one folded set =>
    intro spot tried found
    simp only [Pattern.run] at found
    split at found
    · cases found
    · next c rest split =>
      split at found
      · next within => exact ahead_one_iff.mpr ⟨c, rest, split, within, only _ tried found⟩
      · cases found
  | group a ih => exact (ih first only).mono fun s => ahead_group_iff.mpr
  | seq a b iha ihb => exact (iha first (ihb _ only)).mono fun s => ahead_seq_iff.mpr
  | alt a b iha ihb => exact ((iha _ only).choose (ihb _ only)).mono fun s => ahead_alt_iff.mpr
  | opt greedy a ih => exact ((ih _ only).chooseMore only).mono fun s => ahead_opt_iff.mpr
  | plus greedy a ih =>
    intro spot tried found
    exact ahead_plus_iff.mpr (ih _ (FindsOnly.again (ih _) only _) spot tried found)
  | star greedy a ih =>
    intro spot tried found
    have loop : FindsOnly stop (Pattern.again greedy first (Pattern.run a (first + 2)) next
        (spot.rest.length + 1)) (Ahead (.star greedy a) Q) := FindsOnly.again (ih _) only _
    simp only [Pattern.run] at found
    split at found
    · exact ahead_star_iff.mpr ((ih _ loop).chooseMore only spot tried found)
    · exact loop spot tried found

theorem eq_matched_of_stop? {attempt : Attempt} (found : attempt.stop? = some stop) :
    attempt = .matched stop := by
  cases attempt with
  | matched stop' => rw [Option.some.inj found]
  | failed tried => cases found

theorem ahead_of_stop? {p : Pattern} (found : p.stop? s = some stop) :
    Ahead p (fun after => after.offset = stop) s := by
  have only : FindsOnly stop (fun spot _ => .matched spot.offset)
      fun after => after.offset = stop := fun spot tried same => Attempt.matched.inj same
  exact only.run p 0 s _ (eq_matched_of_stop? found)

end MathShorthand.Pattern
