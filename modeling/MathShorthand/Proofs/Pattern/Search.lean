import MathShorthand.Proofs.Pattern.Covered

/-!
# The search for a match

A search that fails has covered the spot it started from, and has settled all that it tried. So
matches are found wherever there are any (`not_ahead_of_stop?`), and `Pattern.find?` finds the
leftmost one (`find?_eq_some`, `find?_eq_none_iff`).
-/

namespace MathShorthand.Pattern

/-- What goes on to hold at a spot while more is tried. -/
def Growing (R : Tried → Spot → Prop) : Prop := ∀ ⦃t t'⦄ s, t ≤ t' → R t s → R t' s

/-- What goes on to hold while a search goes on. -/
def Lasting (Pre : Tried → Spot → Prop) : Prop :=
  ∀ ⦃t t' s s'⦄, t ≤ t' → s.Reaches s' → Pre t s → Pre t' s'

section

variable {origin : Spot} {Ok : Tried → Nat → Spot → Prop} {Pre Pre' N N' : Tried → Spot → Prop}
variable {total choice : Nat}

/-- All that is tried in the second set and not in the first one is in order. -/
def Accounts (origin : Spot) (Ok : Tried → Nat → Spot → Prop) (t t' : Tried) : Prop :=
  t ≤ t' ∧ ∀ choice s, choice < t.choices → origin.Reaches s → t'.Has choice s →
    t.Has choice s ∨ Ok t' choice s

theorem Accounts.refl (t : Tried) : Accounts origin Ok t t :=
  ⟨Tried.le_refl t, fun _ _ _ _ had => .inl had⟩

theorem Accounts.trans {t t' t'' : Tried} (ok_grows : ∀ choice, Growing (Ok · choice))
    (accounts : Accounts origin Ok t t') (accounts' : Accounts origin Ok t' t'') :
    Accounts origin Ok t t'' := by
  refine ⟨Tried.le_trans accounts.1 accounts'.1, fun choice s lt reach had => ?_⟩
  rcases accounts'.2 choice s (accounts.1.1 ▸ lt) reach had with before | ok
  · exact (accounts.2 choice s lt reach before).imp_right (ok_grows choice s accounts'.1)
  · exact .inr ok

/-- From a spot where `Pre` holds, `next` fails only with a set for which `N` holds there, and
accounts for all that it tries. -/
def Explores (origin : Spot) (total : Nat) (Ok : Tried → Nat → Spot → Prop)
    (Pre N : Tried → Spot → Prop) (next : Continuation) : Prop :=
  ∀ s t t', t.choices = total → origin.Reaches s → Pre t s → next s t = .failed t' →
    Accounts origin Ok t t' ∧ N t' s

theorem Explores.weaken {next : Continuation} (explores : Explores origin total Ok Pre N next)
    (pre : ∀ t s, Pre' t s → Pre t s) : Explores origin total Ok Pre' N next :=
  fun s t t' total_eq reach holds failed => explores s t t' total_eq reach (pre t s holds) failed

theorem Explores.choose {first second : Continuation} (ok_grows : ∀ choice, Growing (Ok · choice))
    (grows : Growing N) (lt : choice < total)
    (enter : ∀ {t t' s}, Pre t s → ¬t.Has choice s → t ≤ t' → t'.Has choice s → Pre' t' s)
    (own : ∀ t s, N t s → N' t s → Ok t choice s)
    (explores_first : Explores origin total Ok Pre' N first)
    (explores_second : Explores origin total Ok Pre' N' second) :
    Explores origin total Ok Pre (·.Has choice) (choose choice first second) := by
  intro s t t' total_eq reach pre failed
  subst total_eq
  simp only [Pattern.choose] at failed
  split at failed
  · next had =>
    cases failed
    exact ⟨.refl t, had⟩
  next fresh =>
  have le := Tried.le_insert t choice s.offset
  have has := Tried.has_insert lt s
  cases attempt : first s (t.insert choice s.offset) with
  | matched stop =>
    rw [attempt] at failed
    cases failed
  | failed t₁ =>
    rw [attempt] at failed
    obtain ⟨accounts₁, n₁⟩ :=
      explores_first s _ t₁ le.1.symm reach (enter pre fresh le has) attempt
    have le₁ := Tried.le_trans le accounts₁.1
    obtain ⟨accounts₂, n₂⟩ := explores_second s t₁ t' le₁.1.symm reach
      (enter pre fresh le₁ (has.mono accounts₁.1)) failed
    have accounts := accounts₁.trans ok_grows accounts₂
    refine ⟨⟨Tried.le_trans le accounts.1, fun choice' s' lt' reach' had => ?_⟩,
      has.mono accounts.1⟩
    rcases accounts.2 choice' s' lt' reach' had with before | ok
    · -- the choice itself is new, and both ways to go on from it have failed by now
      rcases (Tried.contains_insert lt lt').mp before with ⟨rfl, same⟩ | before
      · obtain rfl := reach.eq_of_offset reach' same
        exact .inr (own t' s (grows s accounts₂.1 n₁) n₂)
      · exact .inl before
    · exact .inr ok

theorem Explores.chooseMore (greedy : Bool) {more enough : Continuation}
    (ok_grows : ∀ choice, Growing (Ok · choice)) (grows : Growing N) (grows' : Growing N')
    (lt : choice < total)
    (enter : ∀ {t t' s}, Pre t s → ¬t.Has choice s → t ≤ t' → t'.Has choice s → Pre' t' s)
    (own : ∀ t s, N t s → N' t s → Ok t choice s)
    (explores_more : Explores origin total Ok Pre' N more)
    (explores_enough : Explores origin total Ok Pre' N' enough) :
    Explores origin total Ok Pre (·.Has choice) (chooseMore greedy choice more enough) := by
  unfold Pattern.chooseMore
  split
  · exact explores_more.choose ok_grows grows lt enter own explores_enough
  · exact explores_enough.choose ok_grows grows' lt enter (fun t s n' n => own t s n n')
      explores_more

/-- The rounds left are enough. There are as many as characters left, but for one that has been
started at the spot already. -/
def EnoughRounds (choice rounds : Nat) (t : Tried) (s : Spot) : Prop :=
  s.rest.length < rounds ∨ s.rest.length = rounds ∧ t.Has choice s

theorem Lasting.and (lasts : Lasting Pre) (lasts' : Lasting Pre') :
    Lasting fun t s => Pre t s ∧ Pre' t s :=
  fun _ _ _ _ le reach both => ⟨lasts le reach both.1, lasts' le reach both.2⟩

theorem lasting_enoughRounds (choice rounds : Nat) : Lasting (EnoughRounds choice rounds) := by
  intro t t' s s' le reach enough
  rcases reach.eq_or_length_lt with rfl | lt
  · exact enough.imp_right fun ⟨same, had⟩ => ⟨same, had.mono le⟩
  · rcases enough with more | ⟨same, -⟩
    · exact .inl (by omega)
    · exact .inl (by omega)

theorem Explores.again (greedy : Bool) {body : Continuation → Continuation} {enough : Continuation}
    (ok_grows : ∀ choice, Growing (Ok · choice)) (lasts : Lasting Pre) (grows : Growing N)
    (grows' : Growing N') (lt : choice < total) (own : ∀ t s, N t s → N' t s → Ok t choice s)
    (explores_body : ∀ {Pre next}, Lasting Pre →
      Explores origin total Ok Pre (·.Has choice) next → Explores origin total Ok Pre N (body next))
    (explores_enough : Explores origin total Ok Pre N' enough) (rounds : Nat) :
    Explores origin total Ok (fun t s => Pre t s ∧ EnoughRounds choice rounds t s) (·.Has choice)
      (again greedy choice body enough rounds) := by
  induction rounds with
  | zero =>
    rintro s t t' - - ⟨-, short | ⟨-, had⟩⟩ failed
    · exact absurd short (Nat.not_lt_zero _)
    · cases failed
      exact ⟨.refl t, had⟩
  | succ rounds ih =>
    have lasts_both := lasts.and (lasting_enoughRounds choice rounds)
    refine (explores_body lasts_both ih).chooseMore greedy ok_grows grows grows' lt ?_ own
      (explores_enough.weaken fun t s both => both.1)
    rintro t t' s ⟨pre, short | ⟨-, had⟩⟩ fresh le has
    · -- a round that reads nothing comes back to where the choice has just been tried
      refine ⟨lasts le (.refl s) pre, ?_⟩
      rcases Nat.lt_succ_iff_lt_or_eq.mp short with less | same
      · exact .inl less
      · exact .inr ⟨same, has⟩
    · exact absurd had fresh

theorem growing_covered {p : Pattern} {first : Nat} (grows : Growing N) :
    Growing fun t => Covered t p first (N t) :=
  fun _ _ _ le covered => covered.mono le fun s => grows s le

theorem growing_has (choice : Nat) : Growing (·.Has choice) := fun _ _ _ le had => had.mono le

theorem Lasting.enter (lasts : Lasting Pre) {t t' : Tried} {s : Spot} (pre : Pre t s)
    (_fresh : ¬t.Has choice s) (le : t ≤ t') (_has : t'.Has choice s) : Pre t' s :=
  lasts le (.refl s) pre

theorem Explores.start (first : Nat) {next : Continuation}
    (explores : Explores origin total Ok Pre N next) :
    Explores origin total Ok Pre (fun t => Covered t start first (N t))
      (run start first next) := by
  intro s t t' total_eq reach pre failed
  simp only [Pattern.run] at failed
  split at failed
  · obtain ⟨accounts, n⟩ := explores s t t' total_eq reach pre failed
    exact ⟨accounts, fun _ => n⟩
  · next past =>
    cases failed
    exact ⟨.refl t, fun at_start => absurd at_start past⟩

theorem Explores.literal (text : List Char) (first : Nat) {next : Continuation}
    (lasts : Lasting Pre) (explores : Explores origin total Ok Pre N next) :
    Explores origin total Ok Pre (fun t => Covered t (literal text) first (N t))
      (run (literal text) first next) := by
  intro s t t' total_eq reach pre failed
  simp only [Pattern.run] at failed
  split at failed
  · next begins =>
    obtain ⟨rest, split⟩ := List.isPrefixOf_iff_prefix.mp begins
    rw [← split, List.drop_left] at failed
    have onwards : s.Reaches (s.after text rest) := ⟨text, rest, split.symm, rfl⟩
    obtain ⟨accounts, n⟩ := explores _ t t' total_eq (reach.trans onwards)
      (lasts (Tried.le_refl t) onwards pre) failed
    refine ⟨accounts, fun v split' => ?_⟩
    rwa [← List.append_cancel_left (split.trans split')]
  · next begins =>
    cases failed
    refine ⟨.refl t, fun v split => absurd ?_ begins⟩
    exact List.isPrefixOf_iff_prefix.mpr ⟨v, split.symm⟩

theorem Explores.one (folded : Bool) (set : CharSet) (first : Nat) {next : Continuation}
    (lasts : Lasting Pre) (explores : Explores origin total Ok Pre N next) :
    Explores origin total Ok Pre (fun t => Covered t (one folded set) first (N t))
      (run (one folded set) first next) := by
  intro s t t' total_eq reach pre failed
  simp only [Pattern.run] at failed
  split at failed
  · next nil =>
    cases failed
    exact ⟨.refl t, fun c v split => absurd (nil.symm.trans split) (List.cons_ne_nil c v).symm⟩
  · next c rest split =>
    split at failed
    · have onwards : s.Reaches (s.after [c] rest) := ⟨[c], rest, split, rfl⟩
      obtain ⟨accounts, n⟩ := explores _ t t' total_eq (reach.trans onwards)
        (lasts (Tried.le_refl t) onwards pre) failed
      refine ⟨accounts, fun c' v split' _ => ?_⟩
      obtain ⟨rfl, rfl⟩ := List.cons.inj (split.symm.trans split')
      exact n
    · next outside =>
      cases failed
      refine ⟨.refl t, fun c' v split' within => absurd ?_ outside⟩
      rwa [(List.cons.inj (split.symm.trans split')).1]

/-- A failed search for the pattern and what follows it has covered the spot, and has settled the
choices of the pattern that it tried. -/
theorem Explores.run (p : Pattern) (first : Nat) {next : Continuation}
    (ok_grows : ∀ choice, Growing (Ok · choice)) (lasts : Lasting Pre) (grows : Growing N)
    (own : ∀ t choice s, first ≤ choice → choice < first + p.choices →
      Settled t p first (N t) choice s → Ok t choice s)
    (le : first + p.choices ≤ total) (explores : Explores origin total Ok Pre N next) :
    Explores origin total Ok Pre (fun t => Covered t p first (N t)) (run p first next) := by
  induction p generalizing first next Pre N with
  | empty => exact explores
  | start => exact explores.start first
  | literal text => exact explores.literal text first lasts
  | one folded set => exact explores.one folded set first lasts
  | group a ih => exact ih _ lasts grows own le explores
  | seq a b iha ihb =>
    simp only [choices] at own le
    have second := ihb _ lasts grows (fun t choice s low high settled =>
      own t choice s (by omega) (by omega) ⟨settled_of_outside (by omega), settled⟩)
      (by omega) explores
    exact iha _ lasts (growing_covered grows) (fun t choice s low high settled =>
      own t choice s (by omega) (by omega) ⟨settled, settled_of_outside (by omega)⟩)
      (by omega) second
  | alt a b iha ihb =>
    simp only [choices] at own le
    have left := iha _ lasts grows (fun t choice s low high settled =>
      own t choice s (by omega) (by omega)
        ⟨fun here => by omega, settled, settled_of_outside (by omega)⟩) (by omega) explores
    have right := ihb _ lasts grows (fun t choice s low high settled =>
      own t choice s (by omega) (by omega)
        ⟨fun here => by omega, settled_of_outside (by omega), settled⟩) (by omega) explores
    exact left.choose ok_grows (growing_covered grows) (by omega) lasts.enter
      (fun t s inA inB => own t first s (by omega) (by omega)
        ⟨fun _ => ⟨inA, inB⟩, settled_of_outside (by omega), settled_of_outside (by omega)⟩) right
  | opt greedy a ih =>
    simp only [choices] at own le
    have once := ih _ lasts grows (fun t choice s low high settled =>
      own t choice s (by omega) (by omega) ⟨fun here => by omega, settled⟩) (by omega) explores
    exact once.chooseMore greedy ok_grows (growing_covered grows) grows (by omega) lasts.enter
      (fun t s inside after => own t first s (by omega) (by omega)
        ⟨fun _ => ⟨inside, after⟩, settled_of_outside (by omega)⟩) explores
  | plus greedy a ih =>
    simp only [choices] at own le
    have body {Pre next} (lasts : Lasting Pre)
        (explores : Explores origin total Ok Pre (·.Has first) next) :
        Explores origin total Ok Pre (fun t => Covered t a (first + 1) (t.Has first))
          (Pattern.run a (first + 1) next) :=
      ih _ lasts (growing_has first) (fun t choice s low high settled =>
        own t choice s (by omega) (by omega) ⟨fun here => by omega, settled⟩) (by omega) explores
    intro s t t' total_eq reach pre failed
    have loop := Explores.again greedy ok_grows lasts
      (growing_covered (growing_has first)) grows (by omega) (fun t s inside after =>
        own t first s (by omega) (by omega)
          ⟨fun _ => ⟨inside, after⟩, settled_of_outside (by omega)⟩)
      body explores (s.rest.length + 1)
    exact body (lasts.and (lasting_enoughRounds _ _)) loop s t t' total_eq reach
      ⟨pre, .inl (Nat.lt_succ_self _)⟩ failed
  | star greedy a ih =>
    simp only [choices] at own le
    have body {Pre next} (lasts : Lasting Pre)
        (explores : Explores origin total Ok Pre (·.Has first) next) :
        Explores origin total Ok Pre (fun t => Covered t a (first + 2) (t.Has first))
          (Pattern.run a (first + 2) next) :=
      ih _ lasts (growing_has first) (fun t choice s low high settled =>
        own t choice s (by omega) (by omega) ⟨fun here => by omega, settled⟩) (by omega) explores
    intro s t t' total_eq reach pre failed
    have loop := Explores.again greedy ok_grows lasts
      (growing_covered (growing_has first)) grows (by omega) (fun t s inside after =>
        own t first s (by omega) (by omega)
          ⟨fun _ => ⟨inside, after⟩, settled_of_outside (by omega)⟩)
      body explores (s.rest.length + 1)
    have lasts_both := lasts.and (lasting_enoughRounds first (s.rest.length + 1))
    have both : Pre t s ∧ EnoughRounds first (s.rest.length + 1) t s :=
      ⟨pre, .inl (Nat.lt_succ_self _)⟩
    by_cases nullable : a.nullable = true
    · simp only [Pattern.run, if_pos nullable] at failed
      simp only [Covered, if_pos nullable]
      have entered := (body lasts_both loop).chooseMore greedy ok_grows
        (growing_covered (growing_has first)) grows (show first + 1 < total by omega)
        lasts_both.enter (fun t s inside after => own t (first + 1) s (by omega) (by omega)
          ⟨fun _ => ⟨inside, after⟩, settled_of_outside (by omega)⟩)
        (explores.weaken fun t s both => both.1)
      exact entered s t t' total_eq reach both failed
    · simp only [Pattern.run, if_neg nullable] at failed
      simp only [Covered, if_neg nullable]
      exact loop s t t' total_eq reach both failed

end

theorem eq_failed_of_stop? {attempt : Attempt} (missed : attempt.stop? = none) :
    ∃ tried, attempt = .failed tried := by
  cases attempt with
  | matched stop => cases missed
  | failed tried => exact ⟨tried, rfl⟩

theorem not_ahead_of_stop? {p : Pattern} {s : Spot} (missed : p.stop? s = none) :
    ¬Ahead p (fun _ => True) s := by
  obtain ⟨t, failed⟩ := eq_failed_of_stop? missed
  let Ok : Tried → Nat → Spot → Prop := fun t => Settled t p 0 fun _ => False
  have never : Explores s p.choices Ok (fun _ _ => True) (fun _ _ => False)
      (fun spot _ => .matched spot.offset) := fun _ _ _ _ _ _ failed => nomatch failed
  obtain ⟨accounts, covered⟩ := never.run p 0
    (fun choice t t' s le settled => settled.mono le fun _ => id) (fun _ _ _ _ _ _ _ => trivial)
    (fun _ _ _ _ => id) (fun t choice s _ _ settled => settled) (by omega)
    s (.none p.choices) t rfl (.refl s) trivial failed
  refine not_ahead_of_covered (fun choice s' reach had => ?_) (fun _ _ no _ => no) (.refl s) covered
  by_cases lt : choice < p.choices
  · refine (accounts.2 choice s' lt reach had).resolve_left fun before => ?_
    rw [Tried.Has, Tried.contains_none] at before
    cases before
  · exact settled_of_outside (by omega)

/-! ### The leftmost match -/

theorem takes_of_stop? {p : Pattern} {offset stop : Nat} {text : List Char}
    (found : p.stop? ⟨offset, text⟩ = some stop) :
    ∃ after, text = text.take (stop - offset) ++ after ∧
      p.Takes (offset == 0) (text.take (stop - offset)) := by
  obtain ⟨u, v, split, takes, ends⟩ := ahead_of_stop? found
  obtain rfl : text = u ++ v := split
  have length : stop - offset = u.length := by
    simp only [Spot.after] at ends
    omega
  rw [length, List.take_left]
  exact ⟨v, rfl, takes⟩

theorem not_takes_of_stop? {p : Pattern} {offset : Nat} {text : List Char}
    (missed : p.stop? ⟨offset, text⟩ = none) (w v : List Char) (split : text = w ++ v) :
    ¬p.Takes (offset == 0) w :=
  fun takes => not_ahead_of_stop? missed ⟨w, v, split, takes, trivial⟩

theorem past_cons (offset : Nat) (c : Char) (u : List Char) :
    (offset + (c :: u).length == 0) = (offset + 1 + u.length == 0) := by
  rw [List.length_cons, Nat.add_comm u.length, Nat.add_assoc]

theorem findFrom?_eq_none {p : Pattern} {offset : Nat} {text : List Char}
    (missed : p.findFrom? offset text = none) (u w v : List Char) (split : text = u ++ w ++ v) :
    ¬p.Takes (offset + u.length == 0) w := by
  induction text generalizing offset u with
  | nil =>
    cases here : p.stop? ⟨offset, []⟩ with
    | some stop => simp [findFrom?, here] at missed
    | none =>
      obtain ⟨rfl, rfl, rfl⟩ : u = [] ∧ w = [] ∧ v = [] := by simpa using split.symm
      exact not_takes_of_stop? here [] [] rfl
  | cons c text ih =>
    cases here : p.stop? ⟨offset, c :: text⟩ with
    | some stop => simp [findFrom?, here] at missed
    | none =>
      cases u with
      | nil => exact not_takes_of_stop? here w v split
      | cons c' u =>
        rw [past_cons]
        cases anchored : p.anchored with
        | true =>
          have past : (offset + 1 + u.length == 0) = false := by simp
          rw [past]
          exact not_takes_of_anchored anchored w
        | false =>
          simp only [findFrom?, here, anchored] at missed
          exact ih missed u (List.cons.inj split).2

theorem findFrom?_eq_some {p : Pattern} {offset : Nat} {text piece : List Char}
    (found : p.findFrom? offset text = some piece) :
    ∃ before after, text = before ++ piece ++ after ∧
      p.Takes (offset + before.length == 0) piece ∧
      ∀ u w v, text = u ++ w ++ v → u.length < before.length →
        ¬p.Takes (offset + u.length == 0) w := by
  induction text generalizing offset with
  | nil =>
    cases here : p.stop? ⟨offset, []⟩ with
    | some stop =>
      obtain ⟨after, split, takes⟩ := takes_of_stop? here
      simp only [findFrom?, here, Option.some.injEq] at found
      subst found
      exact ⟨[], after, split, takes, fun u w v _ lt => absurd lt (Nat.not_lt_zero _)⟩
    | none => simp [findFrom?, here] at found
  | cons c text ih =>
    cases here : p.stop? ⟨offset, c :: text⟩ with
    | some stop =>
      obtain ⟨after, split, takes⟩ := takes_of_stop? here
      simp only [findFrom?, here, Option.some.injEq] at found
      subst found
      exact ⟨[], after, split, takes, fun u w v _ lt => absurd lt (Nat.not_lt_zero _)⟩
    | none =>
      cases anchored : p.anchored with
      | true => simp [findFrom?, here, anchored] at found
      | false =>
        simp only [findFrom?, here, anchored] at found
        obtain ⟨before, after, rfl, takes, leftmost⟩ := ih found
        refine ⟨c :: before, after, rfl, past_cons offset c before ▸ takes, ?_⟩
        intro u w v split lt
        cases u with
        | nil => exact not_takes_of_stop? here w v split
        | cons c' u =>
          rw [past_cons]
          exact leftmost u w v (List.cons.inj split).2 (Nat.lt_of_succ_lt_succ lt)

theorem at_start_iff_isEmpty (u : List Char) : (0 + u.length == 0) = u.isEmpty := by
  cases u <;> simp

/-- A pattern that is found in a text is found at the leftmost place where it describes a piece. -/
theorem find?_eq_some {p : Pattern} {text piece : List Char} (found : p.find? text = some piece) :
    ∃ before after, text = before ++ piece ++ after ∧ p.Takes before.isEmpty piece ∧
      ∀ u w v, text = u ++ w ++ v → u.length < before.length → ¬p.Takes u.isEmpty w := by
  simpa only [at_start_iff_isEmpty] using findFrom?_eq_some found

/-- A pattern is found in every text of which it describes a piece. -/
theorem find?_eq_none_iff {p : Pattern} {text : List Char} :
    p.find? text = none ↔ ∀ u w v, text = u ++ w ++ v → ¬p.Takes u.isEmpty w := by
  constructor
  · intro missed u w v split
    rw [← at_start_iff_isEmpty]
    exact findFrom?_eq_none missed u w v split
  · intro nowhere
    cases found : p.find? text with
    | none => rfl
    | some piece =>
      obtain ⟨before, after, split, takes, -⟩ := find?_eq_some found
      exact absurd takes (nowhere before piece after split)

end MathShorthand.Pattern
