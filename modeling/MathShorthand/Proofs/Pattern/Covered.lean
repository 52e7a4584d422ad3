import MathShorthand.Proofs.Pattern.Takes

/-!
# Covered spots

A choice that has been tried is not tried again, so a search may leave out a way to go on only
because another one has come to the same choice before. What a failed search leaves is a set of
choices that covers all ways to go on: each of them comes to a choice in the set, and so does each
way to go on from there. No match can leave such a set (`not_ahead_of_covered`).
-/

namespace MathShorthand.Pattern

/-! ### Spots of one text -/

/-- The second spot is on the text after the first one. -/
def Spot.Reaches (s s' : Spot) : Prop := ∃ u v, s.rest = u ++ v ∧ s' = s.after u v

theorem Spot.Reaches.refl (s : Spot) : s.Reaches s := ⟨[], s.rest, rfl, rfl⟩

theorem Spot.Reaches.trans {s s' s'' : Spot} (reach : s.Reaches s') (reach' : s'.Reaches s'') :
    s.Reaches s'' := by
  obtain ⟨u, v, split, rfl⟩ := reach
  obtain ⟨w, x, split', rfl⟩ := reach'
  obtain rfl : v = w ++ x := split'
  exact ⟨u ++ w, x, by rw [split, List.append_assoc], after_after s u _ w x⟩

theorem Spot.Reaches.eq_of_offset {s s' s'' : Spot} (reach : s.Reaches s')
    (reach' : s.Reaches s'') (same : s'.offset = s''.offset) : s' = s'' := by
  obtain ⟨u, v, split, rfl⟩ := reach
  obtain ⟨w, x, split', rfl⟩ := reach'
  have lengths : u.length = w.length := Nat.add_left_cancel same
  obtain ⟨rfl, rfl⟩ := List.append_inj (split.symm.trans split') lengths
  rfl

theorem Spot.Reaches.eq_or_length_lt {s s' : Spot} (reach : s.Reaches s') :
    s' = s ∨ s'.rest.length < s.rest.length := by
  obtain ⟨u, v, split, rfl⟩ := reach
  cases u with
  | nil => exact .inl (after_nil split)
  | cons c u =>
    right
    simp only [split, Spot.after, List.length_append, List.length_cons]
    omega

/-! ### Sets of tried choices -/

namespace Tried

/-- The choice has been tried at the spot. -/
def Has (t : Tried) (choice : Nat) (s : Spot) : Prop := t.contains choice s.offset = true

/-- All that has been tried in the first set has been tried in the second one. -/
instance : LE Tried where
  le t t' := t.choices = t'.choices ∧
    ∀ choice offset, t.contains choice offset = true → t'.contains choice offset = true

variable {t t' t'' : Tried}

theorem le_refl (t : Tried) : t ≤ t := ⟨rfl, fun _ _ => id⟩

theorem le_trans (le : t ≤ t') (le' : t' ≤ t'') : t ≤ t'' :=
  ⟨le.1.trans le'.1, fun choice offset had => le'.2 _ _ (le.2 choice offset had)⟩

theorem Has.mono {choice : Nat} {s : Spot} (had : t.Has choice s) (le : t ≤ t') :
    t'.Has choice s := le.2 _ _ had

theorem le_insert (t : Tried) (choice offset : Nat) : t ≤ t.insert choice offset := by
  refine ⟨rfl, fun choice' offset' had => ?_⟩
  have place : (t.insert choice offset).place choice' offset' = t.place choice' offset' := rfl
  rw [contains, place, insert, Nat.testBit_or, Bool.or_eq_true]
  exact .inl had

theorem has_insert {choice : Nat} (lt : choice < t.choices) (s : Spot) :
    (t.insert choice s.offset).Has choice s := (contains_insert lt lt).mpr (.inl ⟨rfl, rfl⟩)

end Tried

/-! ### Covered spots -/

/-- Each way to match the pattern at the spot comes to a tried choice, or else to the end of the
pattern at a spot where `N` holds. -/
def Covered (t : Tried) : Pattern → Nat → (Spot → Prop) → Spot → Prop
  | empty, _, N => N
  | start, _, N => fun s => s.offset = 0 → N s
  | literal text, _, N => fun s => ∀ v, s.rest = text ++ v → N (s.after text v)
  | one _ set, _, N => fun s => ∀ c v, s.rest = c :: v → set.contains c = true → N (s.after [c] v)
  | group a, first, N => Covered t a first N
  | seq a b, first, N => Covered t a first (Covered t b (first + a.choices) N)
  | alt _ _, first, _ | opt _ _, first, _ => t.Has first
  | plus _ a, first, _ => Covered t a (first + 1) (t.Has first)
  | star _ a, first, _ => t.Has (if a.nullable then first + 1 else first)

/-- Both ways to go on from the choice at the spot are covered, if it is a choice of the pattern. -/
def Settled (t : Tried) : Pattern → Nat → (Spot → Prop) → Nat → Spot → Prop
  | empty, _, _ | start, _, _ | literal _, _, _ | one _ _, _, _ => fun _ _ => True
  | group a, first, N => Settled t a first N
  | seq a b, first, N => fun choice s =>
    Settled t a first (Covered t b (first + a.choices) N) choice s ∧
      Settled t b (first + a.choices) N choice s
  | alt a b, first, N => fun choice s =>
    (choice = first → Covered t a (first + 1) N s ∧ Covered t b (first + 1 + a.choices) N s) ∧
      Settled t a (first + 1) N choice s ∧ Settled t b (first + 1 + a.choices) N choice s
  | opt _ a, first, N => fun choice s =>
    (choice = first → Covered t a (first + 1) N s ∧ N s) ∧ Settled t a (first + 1) N choice s
  | plus _ a, first, N => fun choice s =>
    (choice = first → Covered t a (first + 1) (t.Has first) s ∧ N s) ∧
      Settled t a (first + 1) (t.Has first) choice s
  | star _ a, first, N => fun choice s =>
    (choice = first ∨ choice = first + 1 → Covered t a (first + 2) (t.Has first) s ∧ N s) ∧
      Settled t a (first + 2) (t.Has first) choice s

variable {p : Pattern} {first : Nat} {N N' : Spot → Prop} {t t' : Tried} {s : Spot}

theorem Covered.mono (le : t ≤ t') (imp : ∀ s, N s → N' s) (covered : Covered t p first N s) :
    Covered t' p first N' s := by
  induction p generalizing first N N' s with
  | empty => exact imp s covered
  | start => exact fun at_start => imp s (covered at_start)
  | literal text => exact fun v split => imp _ (covered v split)
  | one folded set => exact fun c v split within => imp _ (covered c v split within)
  | group a ih => exact ih imp covered
  | seq a b iha ihb => exact iha (fun s => ihb imp) covered
  | alt a b | opt greedy a | star greedy a => exact Tried.Has.mono covered le
  | plus greedy a ih => exact ih (fun s had => Tried.Has.mono had le) covered

theorem Settled.mono {choice : Nat} (le : t ≤ t') (imp : ∀ s, N s → N' s)
    (settled : Settled t p first N choice s) : Settled t' p first N' choice s := by
  have grown (choice : Nat) (s : Spot) (had : t.Has choice s) : t'.Has choice s := had.mono le
  induction p generalizing first N N' with
  | empty | start | literal _ | one _ _ => trivial
  | group a ih => exact ih imp settled
  | seq a b iha ihb =>
    exact ⟨iha (fun s => Covered.mono le imp) settled.1, ihb imp settled.2⟩
  | alt a b iha ihb =>
    obtain ⟨own, inA, inB⟩ := settled
    exact ⟨fun here => ⟨(own here).1.mono le imp, (own here).2.mono le imp⟩, iha imp inA,
      ihb imp inB⟩
  | opt greedy a ih =>
    obtain ⟨own, inner⟩ := settled
    exact ⟨fun here => ⟨(own here).1.mono le imp, imp s (own here).2⟩, ih imp inner⟩
  | plus greedy a ih | star greedy a ih =>
    obtain ⟨own, inner⟩ := settled
    exact ⟨fun here => ⟨(own here).1.mono le (grown _), imp s (own here).2⟩, ih (grown _) inner⟩

/-- The choices of a pattern are numbered in a row, so that other choices are none of it. -/
theorem settled_of_outside {choice : Nat} (outside : choice < first ∨ first + p.choices ≤ choice) :
    Settled t p first N choice s := by
  induction p generalizing first N with
  | empty | start | literal _ | one _ _ => trivial
  | group a ih => exact ih outside
  | seq a b iha ihb =>
    simp only [choices] at outside
    exact ⟨iha (by omega), ihb (by omega)⟩
  | alt a b iha ihb =>
    simp only [choices] at outside
    exact ⟨fun here => by omega, iha (by omega), ihb (by omega)⟩
  | opt greedy a ih | plus greedy a ih | star greedy a ih =>
    simp only [choices] at outside
    exact ⟨fun here => by omega, ih (by omega)⟩

/-! ### No match from a covered spot -/

/-- What each round of a repetition leads from to itself, the repetition cannot leave. -/
theorem not_ahead_star {a : Pattern} {greedy : Bool} {P Q : Spot → Prop}
    (stays : ∀ s, P s → ¬Ahead a (fun s => ¬P s) s) (dead : ∀ s, P s → ¬Q s) (holds : P s) :
    ¬Ahead (.star greedy a) Q s := by
  rintro ⟨u, v, split, takes, ends⟩
  generalize pattern : Pattern.star greedy a = p at takes
  generalize at_start : (s.offset == 0) = b at takes
  induction takes generalizing s v with
  | starNone =>
    rw [after_nil split] at ends
    exact dead s holds ends
  | @starMore b greedy' a' u w once more _ ih =>
    cases pattern
    rw [List.append_assoc] at split
    have inside : P (s.after u (w ++ v)) := Classical.byContradiction fun outside =>
      stays s holds ⟨u, w ++ v, split, at_start ▸ once, outside⟩
    refine ih inside v rfl ?_ rfl ?_
    · rwa [after_after]
    · rw [start_after, at_start]
  | _ => cases pattern

theorem not_ahead_star_of_covered (greedy : Bool) {origin : Spot} {a : Pattern} {inside : Nat}
    {Q : Spot → Prop}
    (not_ahead : ∀ {R s}, (∀ s, origin.Reaches s → t.Has first s → ¬R s) → origin.Reaches s →
      Covered t a inside (t.Has first) s → ¬Ahead a R s)
    (own : ∀ s, origin.Reaches s → t.Has first s → Covered t a inside (t.Has first) s ∧ N s)
    (dead : ∀ s, origin.Reaches s → N s → ¬Q s) (s : Spot) (reach : origin.Reaches s)
    (had : t.Has first s) : ¬Ahead (.star greedy a) Q s := by
  apply not_ahead_star (P := fun s => origin.Reaches s ∧ t.Has first s) ?_ ?_ ⟨reach, had⟩
  · rintro s ⟨reach, had⟩
    exact not_ahead (fun s reach had left => left ⟨reach, had⟩) reach (own s reach had).1
  · rintro s ⟨reach, had⟩
    exact dead s reach (own s reach had).2

/-- If everything that has been tried on the text is settled, then a covered spot has no match. -/
theorem not_ahead_of_covered {origin : Spot} {Q : Spot → Prop}
    (settled : ∀ choice s, origin.Reaches s → t.Has choice s → Settled t p first N choice s)
    (dead : ∀ s, origin.Reaches s → N s → ¬Q s) (reach : origin.Reaches s)
    (covered : Covered t p first N s) : ¬Ahead p Q s := by
  induction p generalizing first N Q s with
  | empty => exact fun ahead => dead s reach covered (ahead_empty_iff.mp ahead)
  | start =>
    intro ahead
    obtain ⟨at_start, holds⟩ := ahead_start_iff.mp ahead
    exact dead s reach (covered at_start) holds
  | literal text =>
    intro ahead
    obtain ⟨v, split, holds⟩ := ahead_literal_iff.mp ahead
    exact dead _ (reach.trans ⟨text, v, split, rfl⟩) (covered v split) holds
  | one folded set =>
    intro ahead
    obtain ⟨c, v, split, within, holds⟩ := ahead_one_iff.mp ahead
    exact dead _ (reach.trans ⟨[c], v, split, rfl⟩) (covered c v split within) holds
  | group a ih =>
    rw [ahead_group_iff]
    exact ih settled dead reach covered
  | seq a b iha ihb =>
    rw [ahead_seq_iff]
    refine iha (fun choice s reach had => (settled choice s reach had).1) ?_ reach covered
    intro s reach covered
    exact ihb (fun choice s reach had => (settled choice s reach had).2) dead reach covered
  | alt a b iha ihb =>
    obtain ⟨inA, inB⟩ := (settled first s reach covered).1 rfl
    rw [ahead_alt_iff, not_or]
    exact ⟨iha (fun choice s reach had => (settled choice s reach had).2.1) dead reach inA,
      ihb (fun choice s reach had => (settled choice s reach had).2.2) dead reach inB⟩
  | opt greedy a ih =>
    obtain ⟨inside, after⟩ := (settled first s reach covered).1 rfl
    rw [ahead_opt_iff, not_or]
    exact ⟨ih (fun choice s reach had => (settled choice s reach had).2) dead reach inside,
      dead s reach after⟩
  | plus greedy a ih =>
    have inner := fun choice s reach had => (settled choice s reach had).2
    have rounds := not_ahead_star_of_covered greedy (ih inner)
      (fun s reach had => (settled first s reach had).1 rfl) dead
    rw [ahead_plus_iff]
    exact ih inner rounds reach covered
  | star greedy a ih =>
    have inner := fun choice s reach had => (settled choice s reach had).2
    have rounds := not_ahead_star_of_covered greedy (ih inner)
      (fun s reach had => (settled first s reach had).1 (.inl rfl)) dead
    have own : Covered t a (first + 2) (t.Has first) s ∧ N s := by
      refine (settled _ s reach covered).1 ?_
      split
      · exact .inr rfl
      · exact .inl rfl
    rw [ahead_star_iff, not_or]
    exact ⟨ih inner rounds reach own.1, dead s reach own.2⟩

end MathShorthand.Pattern
