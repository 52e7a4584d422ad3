import MathShorthand.Text.Blank

/-!
# Sets of characters

What a pattern may ask of one character. A set is kept as its runs of code points, so that two
ways to write one set give the same runs. `contains_union`, `contains_diff` and their like say what
each operation does to the characters of a set.
-/

namespace MathShorthand

/-- A set of characters, as the runs of code points in it. They are in ascending order, and there
is a gap between any two. -/
structure CharSet where
  runs : List (Nat × Nat)
  deriving DecidableEq

/-- The other case of an ASCII letter, and any other character itself. -/
def otherCase (c : Char) : Char :=
  if c.isLower then c.toUpper else c.toLower

namespace CharSet

def contains (s : CharSet) (c : Char) : Bool := Text.inRanges s.runs c.toNat

/-! ### Runs -/

/-- The runs with one more, which is joined with those that it touches. -/
def insertRun (low high : Nat) : List (Nat × Nat) → List (Nat × Nat)
  | [] => [(low, high)]
  | (a, b) :: runs =>
    if high + 1 < a then (low, high) :: (a, b) :: runs
    else if b + 1 < low then (a, b) :: insertRun low high runs
    else insertRun (min low a) (max high b) runs

/-- What is left of a run without the code points from `low` to `high`. -/
def cutRun (low high : Nat) (run : Nat × Nat) : List (Nat × Nat) :=
  (if run.1 < low then [(run.1, min run.2 (low - 1))] else []) ++
    if high < run.2 then [(max run.1 (high + 1), run.2)] else []

theorem inRanges_insertRun {low high : Nat} (le : low ≤ high) (runs : List (Nat × Nat)) (n : Nat) :
    Text.inRanges (insertRun low high runs) n = true ↔
      low ≤ n ∧ n ≤ high ∨ Text.inRanges runs n = true := by
  induction runs generalizing low high with
  | nil => simp [insertRun, Text.inRanges]
  | cons run runs ih =>
    obtain ⟨a, b⟩ := run
    have first : Text.inRanges ((a, b) :: runs) n = true ↔
        a ≤ n ∧ n ≤ b ∨ Text.inRanges runs n = true := by simp [Text.inRanges]
    rw [first, insertRun]
    split
    · rw [Text.inRanges, List.any_cons, ← Text.inRanges, Bool.or_eq_true, first]
      simp
    · split
      · rw [Text.inRanges, List.any_cons, ← Text.inRanges, Bool.or_eq_true, ih le]
        simp only [Bool.and_eq_true, decide_eq_true_eq]
        exact or_left_comm
      · rw [ih (by omega), ← or_assoc]
        refine or_congr_left ?_
        omega

theorem inRanges_cutRun (low high n : Nat) (run : Nat × Nat) :
    Text.inRanges (cutRun low high run) n = true ↔
      (run.1 ≤ n ∧ n ≤ run.2) ∧ ¬(low ≤ n ∧ n ≤ high) := by
  simp only [Text.inRanges, cutRun, List.any_append]
  split <;> split <;>
    simp only [List.any_cons, List.any_nil, Bool.or_false, Bool.false_or, Bool.or_eq_true,
      Bool.and_eq_true, decide_eq_true_eq, Bool.false_eq_true, false_iff] <;> omega

/-! ### Operations -/

def empty : CharSet := ⟨[]⟩

def span (low high : Char) : CharSet := ⟨[(low.toNat, high.toNat)]⟩

def single (c : Char) : CharSet := span c c

def blank : CharSet := ⟨Text.blanks⟩

def asciiBlank : CharSet := ⟨[(0x9, 0xd), (0x20, 0x20)]⟩

def all : CharSet := ⟨[(0, 0x10ffff)]⟩

def insert (s : CharSet) (run : Nat × Nat) : CharSet :=
  if run.1 ≤ run.2 then ⟨insertRun run.1 run.2 s.runs⟩ else s

def union (a b : CharSet) : CharSet := b.runs.foldl insert a

def cut (s : CharSet) (run : Nat × Nat) : CharSet := ⟨s.runs.flatMap (cutRun run.1 run.2)⟩

def diff (a b : CharSet) : CharSet := b.runs.foldl cut a

def complement (s : CharSet) : CharSet := diff all s

def inter (a b : CharSet) : CharSet := diff a (diff a b)

def symmDiff (a b : CharSet) : CharSet := union (diff a b) (diff b a)

/-- Every character but the line feed. -/
def withinLine : CharSet := complement (single '\n')

def swapCaseOfRun (run : Nat × Nat) : List (Nat × Nat) :=
  [(max run.1 0x61 - 0x20, min run.2 0x7a - 0x20), (max run.1 0x41 + 0x20, min run.2 0x5a + 0x20)]

def swapCase (s : CharSet) : CharSet := ⟨s.runs.flatMap swapCaseOfRun⟩

/-- The characters of a set, and the other case of each. Only the letters of ASCII have one here,
so that `ſ` is never taken for an `s`. -/
def eitherCase (s : CharSet) : CharSet := union s s.swapCase

def only? (s : CharSet) : Option Char :=
  match s.runs with
  | [(low, high)] => if low = high then some (Char.ofNat low) else none
  | _ => none

/-! ### What the operations do -/

@[simp] theorem contains_empty (c : Char) : empty.contains c = false := rfl

theorem contains_span (low high c : Char) :
    (span low high).contains c = true ↔ low ≤ c ∧ c ≤ high := by
  simp only [contains, span, Text.inRanges, List.any_cons, List.any_nil, Bool.or_false,
    Bool.and_eq_true, decide_eq_true_eq]
  rfl

theorem contains_single (c d : Char) : (single c).contains d = true ↔ d = c := by
  rw [single, contains_span]
  constructor
  · rintro ⟨low, high⟩
    exact Char.le_antisymm high low
  · rintro rfl
    exact ⟨Char.le_refl d, Char.le_refl d⟩

theorem contains_insert (s : CharSet) (run : Nat × Nat) (c : Char) :
    (s.insert run).contains c = true ↔
      s.contains c = true ∨ run.1 ≤ c.toNat ∧ c.toNat ≤ run.2 := by
  unfold insert
  split
  · next le => exact (inRanges_insertRun le _ _).trans or_comm
  · next gt => exact (or_iff_left fun within => gt (Nat.le_trans within.1 within.2)).symm

theorem contains_union (a b : CharSet) (c : Char) :
    (union a b).contains c = true ↔ a.contains c = true ∨ b.contains c = true := by
  obtain ⟨runs⟩ := b
  simp only [union]
  induction runs generalizing a with
  | nil => simp [contains, Text.inRanges]
  | cons run runs ih =>
    rw [List.foldl_cons, ih, contains_insert, or_assoc]
    simp [contains, Text.inRanges]

theorem contains_cut (s : CharSet) (run : Nat × Nat) (c : Char) :
    (s.cut run).contains c = true ↔
      s.contains c = true ∧ ¬(run.1 ≤ c.toNat ∧ c.toNat ≤ run.2) := by
  obtain ⟨runs⟩ := s
  simp only [cut, contains]
  induction runs with
  | nil => simp [Text.inRanges]
  | cons first runs ih =>
    have joined : Text.inRanges ((first :: runs).flatMap (cutRun run.1 run.2)) c.toNat =
        (Text.inRanges (cutRun run.1 run.2 first) c.toNat ||
          Text.inRanges (runs.flatMap (cutRun run.1 run.2)) c.toNat) := by
      simp [Text.inRanges]
    rw [joined, Bool.or_eq_true, inRanges_cutRun, ih, ← or_and_right]
    simp [Text.inRanges]

theorem contains_diff (a b : CharSet) (c : Char) :
    (diff a b).contains c = true ↔ a.contains c = true ∧ ¬b.contains c = true := by
  obtain ⟨runs⟩ := b
  simp only [diff]
  induction runs generalizing a with
  | nil => simp [contains, Text.inRanges]
  | cons run runs ih =>
    rw [List.foldl_cons, ih, contains_cut, and_assoc, ← not_or]
    simp [contains, Text.inRanges]

theorem contains_all (c : Char) : all.contains c = true := by
  have valid := c.valid
  simp only [UInt32.isValidChar, Nat.isValidChar] at valid
  simp only [contains, all, Text.inRanges, List.any_cons, List.any_nil, Bool.or_false,
    Bool.and_eq_true, decide_eq_true_eq, Char.toNat]
  omega

theorem contains_complement (s : CharSet) (c : Char) :
    s.complement.contains c = true ↔ ¬s.contains c = true := by
  rw [complement, contains_diff, and_iff_right (contains_all c)]

theorem contains_inter (a b : CharSet) (c : Char) :
    (inter a b).contains c = true ↔ a.contains c = true ∧ b.contains c = true := by
  rw [inter, contains_diff, contains_diff, not_and, Classical.not_not]
  exact and_congr_right fun within => ⟨fun held => held within, fun held _ => held⟩

theorem contains_symmDiff (a b : CharSet) (c : Char) :
    (symmDiff a b).contains c = true ↔
      a.contains c = true ∧ ¬b.contains c = true ∨
        b.contains c = true ∧ ¬a.contains c = true := by
  rw [symmDiff, contains_union, contains_diff, contains_diff]

theorem isLower_iff (c : Char) : c.isLower = true ↔ 0x61 ≤ c.toNat ∧ c.toNat ≤ 0x7a := by
  delta Char.isLower
  simp only [Bool.and_eq_true, decide_eq_true_eq]
  rfl

theorem toNat_toLower (c : Char) :
    c.toLower.toNat =
      if 0x41 ≤ c.toNat ∧ c.toNat ≤ 0x5a then c.toNat + 0x20 else c.toNat := by
  delta Char.toLower
  split
  · next upper =>
    have upper : 0x41 ≤ c.toNat ∧ c.toNat ≤ 0x5a := upper
    rw [if_pos upper]
    change (c.val + ('a'.val - 'A'.val)).toNat = _
    rw [UInt32.toNat_add]
    change (c.toNat + 32) % 4294967296 = _
    omega
  · next not_upper =>
    have not_upper : ¬(0x41 ≤ c.toNat ∧ c.toNat ≤ 0x5a) := not_upper
    rw [if_neg not_upper]

theorem toNat_otherCase (c : Char) :
    (otherCase c).toNat =
      if 0x61 ≤ c.toNat ∧ c.toNat ≤ 0x7a then c.toNat - 0x20
      else if 0x41 ≤ c.toNat ∧ c.toNat ≤ 0x5a then c.toNat + 0x20 else c.toNat := by
  rw [otherCase]
  split
  · next is_lower =>
    have range : 'a'.val ≤ c.val ∧ c.val ≤ 'z'.val := (isLower_iff c).mp is_lower
    have bounds := (isLower_iff c).mp is_lower
    delta Char.toUpper
    rw [if_pos bounds, dif_pos range]
    change (c.val + ('A'.val - 'a'.val)).toNat = _
    rw [UInt32.toNat_add]
    change (c.toNat + 4294967264) % 4294967296 = _
    omega
  · next not_lower =>
    rw [isLower_iff] at not_lower
    rw [if_neg not_lower, toNat_toLower]

theorem contains_eitherCase (s : CharSet) (c : Char) :
    s.eitherCase.contains c = true ↔ s.contains c = true ∨ s.contains (otherCase c) = true := by
  rw [eitherCase, contains_union]
  simp only [contains, swapCase, Text.inRanges, List.any_flatMap, swapCaseOfRun, List.any_cons,
    List.any_nil, toNat_otherCase, List.any_eq_true, Bool.or_false, Bool.or_eq_true,
    Bool.and_eq_true, decide_eq_true_eq]
  constructor
  · rintro (held | ⟨run, mem, held⟩)
    · exact .inl held
    · refine .inr ⟨run, mem, ?_⟩
      split
      · omega
      · split <;> omega
  · rintro (held | ⟨run, mem, held⟩)
    · exact .inl held
    · split at held
      · exact .inr ⟨run, mem, by omega⟩
      · split at held
        · exact .inr ⟨run, mem, by omega⟩
        · exact .inl ⟨run, mem, held⟩

theorem contains_eitherCase_single (c d : Char) :
    (single c).eitherCase.contains d = true ↔ d.toLower = c.toLower := by
  rw [contains_eitherCase, contains_single, contains_single, ← Char.toNat_inj, ← Char.toNat_inj,
    ← Char.toNat_inj, toNat_otherCase, toNat_toLower, toNat_toLower]
  split <;> split <;> split <;> omega

end CharSet

end MathShorthand
