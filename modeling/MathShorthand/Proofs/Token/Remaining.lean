import MathShorthand.Proofs.Token.Segmentation

/-!
# The pieces still to come

How many pieces a text still holds is known within bounds before any of them is read
(`Pieces.sizeBounds?`). There is no more of them than bytes, since each has one at least, and there is
one as long as any text is left. The bounds hold after any number of calls
(`remaining_within_sizeBounds`).
-/

namespace MathShorthand

theorem length_le_byteLength_written {ts : List Token} (some_text : ∀ t ∈ ts, t.text ≠ "") :
    ts.length ≤ Text.byteLength (written ts) := by
  induction ts with
  | nil => exact Nat.zero_le _
  | cons t ts ih =>
    obtain ⟨first, others⟩ := List.forall_mem_cons.mp some_text
    have pos : 0 < Text.byteLength t.text.toList := by
      rw [Nat.pos_iff_ne_zero, ne_eq, Text.byteLength_eq_zero, String.toList_eq_nil_iff]
      exact first
    have le := ih others
    rw [List.length_cons, written_cons, Text.byteLength_append]
    omega

variable {R : Type} [Regex R] {table : OperatorTable R}

namespace Pieces

/-- However many pieces are asked for, the text can be read on. -/
theorem exists_rest_afterCalls (finds : table.FindsPrefixes) {s : Pieces} {rest : List Char}
    (left : s.rest? = some rest) (k : Nat) : ∃ rest, (s.afterCalls table k).rest? = some rest := by
  induction k generalizing s rest with
  | zero => exact ⟨rest, left⟩
  | succ k ih =>
    cases step : s.next table with
    | panic => exact absurd step (next_ne_panic left)
    | ended =>
      rw [afterCalls_of_ended step]
      exact ⟨rest, left⟩
    | gives t s' =>
      obtain ⟨behind, -, after, -⟩ := exists_rest_of_next finds step
      rw [afterCalls_succ step]
      exact ih after

end Pieces

/-- With operators that take non-empty prefixes, whatever regular expressions they are made of,
there are bounds after any number of calls, and the pieces that the next calls give are as many as
the bounds say. There is none just if both bounds are zero. -/
theorem remaining_within_sizeBounds {table : OperatorTable R} (prefixes : table.TakesPrefixes)
    (text : List Char) (k : Nat) :
    let s := (Pieces.ofText text).afterCalls table k
    ∃ (ts : List Token) (lower upper : Nat), s.toList? table = some ts ∧
      (∀ j, (s.afterCalls table j).given? table = some ts[j]?) ∧
      s.sizeBounds? = some (lower, upper) ∧ lower ≤ ts.length ∧ ts.length ≤ upper ∧
      (ts.length = 0 ↔ lower = 0 ∧ upper = 0) := by
  intro s
  have finds := prefixes.findsPrefixes
  obtain ⟨rest, left⟩ : ∃ rest, s.rest? = some rest :=
    Pieces.exists_rest_afterCalls finds (Pieces.rest?_ofText text) k
  obtain ⟨ts, all, rfl, justified⟩ := Pieces.exists_toList? finds left
  have some_text := Pieces.text_ne_of_eachJustified justified
  have no_more := length_le_byteLength_written some_text
  have ended : ts.length = 0 ↔ Text.byteLength (written ts) = 0 := by
    rw [Text.byteLength_eq_zero, List.length_eq_zero_iff]
    constructor
    · rintro rfl
      rfl
    · intro nothing
      refine List.eq_nil_of_length_eq_zero (Nat.eq_zero_of_le_zero ?_)
      rwa [nothing] at no_more
  refine ⟨ts, _, _, all, Pieces.given?_afterCalls all, by rw [Pieces.sizeBounds?, left]; rfl, ?_,
    no_more, ?_⟩ <;> omega

/-- When the name has been read, three bytes are left and two pieces. -/
theorem remaining_within_sizeBounds_sum :
    ∃ table : OperatorTable Pattern, OperatorTable.ofPatterns? [("\\+", .plus, true)] = some table ∧
      table.TakesPrefixes ∧
      let s := (Pieces.ofText "éa+ü".toList).afterCalls table 1
      s.toList? table = some [⟨.plus, "+"⟩, ⟨.name, "ü"⟩] ∧
        (s.afterCalls table 2).given? table = some none ∧
        ∃ lower upper, s.sizeBounds? = some (lower, upper) ∧ (lower, upper) = (1, 3) ∧
          lower ≤ 2 ∧ 2 ≤ upper := by
  let table : OperatorTable Pattern := ⟨[⟨.plus, true, .seq .start (.literal ['+'])⟩]⟩
  have read : OperatorTable.ofPatterns? [("\\+", .plus, true)] = some table := by decide
  have prefixes : table.TakesPrefixes := OperatorTable.takesPrefixes_of_patterns read (by decide)
  refine ⟨table, read, prefixes, ?_⟩
  intro s
  obtain ⟨ts, lower, upper, all, calls, bounds, least, most, -⟩ :=
    remaining_within_sizeBounds prefixes "éa+ü".toList 1
  have pieces : s.toList? table = some [⟨.plus, "+"⟩, ⟨.name, "ü"⟩] := by decide +kernel
  have counted : s.sizeBounds? = some (1, 3) := by decide +kernel
  obtain rfl := Option.some.inj (all.symm.trans pieces)
  exact ⟨pieces, calls 2, lower, upper, bounds, Option.some.inj (bounds.symm.trans counted),
    least, most⟩

end MathShorthand
