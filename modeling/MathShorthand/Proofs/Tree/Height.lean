import MathShorthand.Proofs.Grammar.Sequence

/-!
# The height of what is read

Reading charges an operand for the links before it in its chain, which are known by then. In the
tree it stands under the links after it. So `maxDepth` levels are no bound on the height of a tree:
what is read is at most `maxDepth` high exactly if its derivation `Fits`, where the links after an
operand are charged for. The tallest tree that is read has a height of 32641.
-/

namespace MathShorthand

namespace Expr

mutual

/-- The number of expressions on the longest way down to a name. -/
def height : Expr → Nat
  | name _ => 1
  | prefixed _ x | postfixed _ x => x.height + 1
  | binary _ left right => max left.height right.height + 1
  | bounded _ bounds body => max (heights bounds) body.height + 1

/-- The height of the highest, zero if there is none. -/
def heights : List Expr → Nat
  | [] => 0
  | e :: es => max e.height (heights es)

end

theorem height_pos (e : Expr) : 0 < e.height := by
  cases e <;> simp [height]

end Expr

namespace Grammar

/-- The number of links. -/
def Links.count {m : Nat} : Links m → Nat
  | .nil => 0
  | .left _ _ _ _ others | .right _ _ _ _ others | .mark _ _ _ others => others.count + 1

/-! ### Charging for the links after an operand -/

mutual

/-- The derivation takes no more than `n` levels if an operand is charged for its own link and for
the links after it. -/
def Phrase.Fits (n : Nat) {m : Nat} : Phrase m → Prop
  | .mk head links => head.Fits (n - links.count) ∧ links.Fits n

def Head.Fits (n : Nat) : Head → Prop
  | .name _ => 0 < n
  | .group _ inner _ => inner.Fits n
  | .signed _ _ operand => operand.Fits (n - 1)
  | .bound _ _ bounds _ body => bounds.Fits (n - 1) ∧ body.Fits (n - 1)

def Bounds.Fits (n : Nat) : Bounds → Prop
  | .none => True
  | .last bound => bound.Fits n
  | .more bound _ others => bound.Fits n ∧ others.Fits n

def Links.Fits (n : Nat) {m : Nat} : Links m → Prop
  | .nil => True
  | .left _ _ _ right others | .right _ _ _ right others =>
    right.Fits (n - (others.count + 1)) ∧ others.Fits n
  | .mark _ _ _ others => others.Fits n

end

theorem add_le_iff_le_sub {h k n : Nat} (pos : 0 < h) : h + k ≤ n ↔ h ≤ n - k := by
  omega

mutual

theorem Phrase.height_tree_le_iff {m : Nat} (d : Phrase m) (n : Nat) :
    d.tree.height ≤ n ↔ d.Fits n := by
  match d with
  | .mk head links =>
    rw [Phrase.tree, links.height_tree_le_iff, add_le_iff_le_sub head.tree.height_pos,
      head.height_tree_le_iff, Phrase.Fits]

theorem Head.height_tree_le_iff (h : Head) (n : Nat) : h.tree.height ≤ n ↔ h.Fits n := by
  cases h with
  | name text => exact Iff.rfl
  | group opening inner closing => exact inner.height_tree_le_iff n
  | signed op sign operand =>
    rw [Head.tree, Expr.height, add_le_iff_le_sub operand.tree.height_pos,
      operand.height_tree_le_iff, Head.Fits]
  | bound op binder bounds stop body =>
    have pos : 0 < max (Expr.heights bounds.trees) body.tree.height :=
      Nat.lt_of_lt_of_le body.tree.height_pos (Nat.le_max_right _ _)
    rw [Head.tree, Expr.height, add_le_iff_le_sub pos, Nat.max_le, bounds.heights_trees_le_iff,
      body.height_tree_le_iff, Head.Fits]

theorem Bounds.heights_trees_le_iff (bs : Bounds) (n : Nat) :
    Expr.heights bs.trees ≤ n ↔ bs.Fits n := by
  cases bs with
  | none => exact iff_of_true (Nat.zero_le n) trivial
  | last bound =>
    rw [Bounds.trees, Expr.heights, Expr.heights, Nat.max_zero, bound.height_tree_le_iff,
      Bounds.Fits]
  | more bound comma others =>
    rw [Bounds.trees, Expr.heights, Nat.max_le, bound.height_tree_le_iff,
      others.heights_trees_le_iff, Bounds.Fits]

theorem Links.height_tree_le_iff {m : Nat} (ls : Links m) (start : Expr) (n : Nat) :
    (ls.tree start).height ≤ n ↔ start.height + ls.count ≤ n ∧ ls.Fits n := by
  match ls with
  | .nil => exact (and_iff_left trivial).symm
  | .left op listed tighter right others | .right op listed tighter right others =>
    have operand := add_le_iff_le_sub (k := others.count + 1) (n := n) right.tree.height_pos
    rw [Links.tree, others.height_tree_le_iff, Expr.height, Links.Fits, Links.count,
      ← right.height_tree_le_iff, ← operand, ← and_assoc]
    refine and_congr_left fun _ => ?_
    omega
  | .mark op listed tighter others =>
    rw [Links.tree, others.height_tree_le_iff, Expr.height, Links.Fits, Links.count]
    refine and_congr_left fun _ => ?_
    omega

end

/-! ### The tallest tree -/

/-- The height of the tallest tree with `k` levels free inside it. -/
def tallest : Nat → Nat
  | 0 => 1
  | k + 1 => tallest k + (k + 1)

theorem lt_tallest (k : Nat) : k < tallest k := by
  induction k with
  | zero => exact Nat.one_pos
  | succ k ih =>
    rw [tallest]
    omega

theorem Links.count_le_levels {m : Nat} (ls : Links m) : ls.count ≤ ls.levels := by
  match ls with
  | .nil => exact Nat.le_refl 0
  | .left _ _ _ operand others | .right _ _ _ operand others =>
    have le := others.count_le_levels
    exact Nat.succ_le_succ (Nat.le_trans le (Nat.le_max_right operand.levels _))
  | .mark _ _ _ others => exact Nat.succ_le_succ others.count_le_levels

/-- Where a sign's operand has ended no mark can follow, so the last link has an operand that takes
a level of its own. -/
theorem Links.count_lt_levels {m : Nat} {ls : Links m} {rest : List Token}
    (longest : ls.Longest rest) (stops : Stops signRank (ls.tokens ++ rest)) :
    ls.count = 0 ∨ ls.count < ls.levels := by
  match ls with
  | .nil => exact .inl rfl
  | .left op listed _ operand others =>
    obtain ⟨longest_operand, longest_others⟩ := longest
    have loose : ∀ listing ∈ leftOperators, listing.2 ≤ signRank := by decide
    have ended := (Phrase.stops longest_operand).mono (loose _ listed)
    have pos := operand.levels_pos
    refine .inr ?_
    rw [Links.count, Links.levels]
    rcases Links.count_lt_levels longest_others ended with none | lt <;> omega
  | .right op listed _ operand others =>
    obtain ⟨longest_operand, longest_others⟩ := longest
    have loose : ∀ listing ∈ rightOperators, listing.2 - 1 ≤ signRank := by decide
    have ended := (Phrase.stops longest_operand).mono (loose _ listed)
    have pos := operand.levels_pos
    refine .inr ?_
    rw [Links.count, Links.levels]
    rcases Links.count_lt_levels longest_others ended with none | lt <;> omega
  | .mark op listed _ others =>
    have tight : ∀ k ∈ marks, signRank < k.precedence := by decide
    exact absurd stops (Nat.not_le_of_lt (tight _ listed))

theorem exists_levels_inside {m : Nat} (d : Phrase m) {k : Nat} (le : d.levels ≤ k) :
    ∃ j, k = j + 1 :=
  Nat.exists_eq_succ_of_ne_zero (Nat.ne_zero_of_lt (Nat.lt_of_lt_of_le d.levels_pos le))

/-- One more operand, which has one level fewer than the links after it, makes a chain no higher
than it would be anyway. -/
theorem le_max_of_operand {op : Kind} {start right : Expr} {count k h : Nat}
    (operand : right.height ≤ tallest k) (few : count ≤ k + 1)
    (low : h ≤ max ((Expr.binary op start right).height + count) (tallest (k + 1))) :
    h ≤ max (start.height + (count + 1)) (tallest (k + 2)) := by
  rw [Expr.height] at low
  rw [tallest, tallest]
  rw [tallest] at low
  omega

mutual

theorem Phrase.height_tree_le {m : Nat} {d : Phrase m} {rest : List Token}
    (longest : d.Longest rest) {k : Nat} (le : d.levels ≤ k + 1) :
    d.tree.height ≤ tallest k := by
  match d with
  | .mk head links =>
    obtain ⟨longest_head, longest_links, -⟩ := longest
    obtain ⟨le_head, le_links⟩ := Nat.max_le.mp (Nat.le_of_succ_le_succ le)
    have count_le := Nat.le_trans links.count_le_levels le_links
    refine Nat.le_trans (Links.height_tree_le longest_links le_links head.tree)
      (Nat.max_le.mpr ⟨?_, Nat.le_refl _⟩)
    rcases Head.height_tree_le longest_head le_head with low | ⟨low, pos, stops⟩
    · omega
    · rcases Links.count_lt_levels longest_links stops with none | lt <;> omega

/-- A head is low enough for `k` links, or for one fewer where an operand has ended. -/
theorem Head.height_tree_le {h : Head} {rest : List Token} (longest : h.Longest rest) {k : Nat}
    (le : h.levels ≤ k) :
    h.tree.height + k ≤ tallest k ∨
      h.tree.height + k ≤ tallest k + 1 ∧ 0 < k ∧ Stops signRank rest := by
  cases h with
  | name text =>
    have lt := lt_tallest k
    rw [Head.tree, Expr.height]
    omega
  | group opening inner closing =>
    obtain ⟨k, rfl⟩ := exists_levels_inside inner le
    have low := Phrase.height_tree_le longest le
    exact .inl (Nat.add_le_add_right low _)
  | signed op sign operand =>
    obtain ⟨k, rfl⟩ := exists_levels_inside operand le
    have low := Phrase.height_tree_le longest le
    refine .inr ⟨?_, Nat.succ_pos k, Phrase.stops longest⟩
    rw [Head.tree, Expr.height, tallest]
    omega
  | bound op binder bounds stop body =>
    obtain ⟨longest_bounds, longest_body⟩ := longest
    obtain ⟨le_bounds, le_body⟩ := Nat.max_le.mp le
    obtain ⟨k, rfl⟩ := exists_levels_inside body le_body
    have low_bounds := Bounds.heights_trees_le longest_bounds le_bounds
    have low_body := Phrase.height_tree_le longest_body le_body
    refine .inr ⟨?_, Nat.succ_pos k, (Phrase.stops longest_body).mono (Nat.zero_le _)⟩
    rw [Head.tree, Expr.height, tallest]
    omega

theorem Bounds.heights_trees_le {bs : Bounds} {rest : List Token} (longest : bs.Longest rest)
    {k : Nat} (le : bs.levels ≤ k + 1) : Expr.heights bs.trees ≤ tallest k := by
  cases bs with
  | none => exact Nat.zero_le _
  | last bound => exact Nat.max_le.mpr ⟨Phrase.height_tree_le longest le, Nat.zero_le _⟩
  | more bound comma others =>
    obtain ⟨longest_bound, longest_others⟩ := longest
    obtain ⟨le_bound, le_others⟩ := Nat.max_le.mp le
    exact Nat.max_le.mpr ⟨Phrase.height_tree_le longest_bound le_bound,
      Bounds.heights_trees_le longest_others le_others⟩

theorem Links.height_tree_le {m : Nat} {ls : Links m} {rest : List Token}
    (longest : ls.Longest rest) {k : Nat} (le : ls.levels ≤ k) (start : Expr) :
    (ls.tree start).height ≤ max (start.height + ls.count) (tallest k) := by
  match ls with
  | .nil => exact Nat.le_max_left _ _
  | .left op listed tighter right others | .right op listed tighter right others =>
    obtain ⟨longest_right, longest_others⟩ := longest
    obtain ⟨k, rfl⟩ : ∃ j, k = j + 1 := ⟨k - 1, by rw [Links.levels] at le; omega⟩
    obtain ⟨le_right, le_others⟩ := Nat.max_le.mp (Nat.le_of_succ_le_succ le)
    obtain ⟨k, rfl⟩ := exists_levels_inside right le_right
    exact le_max_of_operand (Phrase.height_tree_le longest_right le_right)
      (Nat.le_trans others.count_le_levels le_others)
      (Links.height_tree_le longest_others le_others _)
  | .mark op listed tighter others =>
    have longest_others : others.Longest rest := longest
    have low := Links.height_tree_le longest_others (Nat.le_of_succ_le le)
      (.postfixed op.kind start)
    rw [Expr.height] at low
    rw [Links.tree, Links.count]
    omega

end

/-! ### A tower -/

/-- The mark `@` so many times. -/
def hats : Nat → Links 0
  | 0 => .nil
  | n + 1 => .mark ⟨.hat, "@"⟩ (by decide) (by decide) (hats n)

/-- A name in `k` pairs of brackets, the innermost with one mark after it and every other with one
mark more than the pair inside it. -/
def tower : Nat → Phrase 0
  | 0 => .mk (.name "x") .nil
  | k + 1 => .mk (.group "(" (tower k) ")") (hats (k + 1))

theorem levels_hats (n : Nat) : (hats n).levels = n := by
  induction n with
  | zero => rfl
  | succ n ih => rw [hats, Links.levels, ih]

theorem longest_hats (n : Nat) (rest : List Token) : (hats n).Longest rest := by
  induction n with
  | zero => trivial
  | succ n ih => exact ih

theorem height_tree_hats (n : Nat) (start : Expr) :
    ((hats n).tree start).height = start.height + n := by
  induction n generalizing start with
  | zero => rfl
  | succ n ih =>
    rw [hats, Links.tree, ih, Expr.height]
    omega

theorem levels_tower (k : Nat) : (tower k).levels = k + 1 := by
  induction k with
  | zero => rfl
  | succ k ih => rw [tower, Phrase.levels, Head.levels, ih, levels_hats, Nat.max_self]

theorem longest_tower (k : Nat) {rest : List Token} (stops : Stops 0 rest) :
    (tower k).Longest rest := by
  induction k generalizing rest with
  | zero => exact ⟨trivial, trivial, stops⟩
  | succ k ih => exact ⟨ih (Nat.le_refl 0), longest_hats _ _, stops⟩

theorem height_tree_tower (k : Nat) : (tower k).tree.height = tallest k := by
  induction k with
  | zero => rfl
  | succ k ih => rw [tower, Phrase.tree, height_tree_hats, Head.tree, ih, tallest]

theorem readAll_tower {k : Nat} (lt : k < maxDepth) :
    Expr.readAll (tower k).tokens = .ok [(tower k).tree] := by
  have spelled : Spells [tower k] (tower k).tokens :=
    ⟨[], (List.append_nil _).symm, longest_tower k (Nat.le_refl 0), rfl⟩
  refine (readAll_eq_ok_iff _ _).mpr ⟨_, spelled, rfl, fun d mem => ?_⟩
  obtain rfl := List.mem_singleton.mp mem
  rw [levels_tower]
  exact lt

theorem tallest_eq : tallest 255 = 32641 := by
  decide +kernel

/-- What is read of some tokens is at most `maxDepth` high exactly if their derivations fit with the
links after every operand charged for. It is never more than 32641 high. -/
theorem height_le_maxDepth_iff_fits (tokens : List Token) :
    ((∀ es, Expr.readAll tokens = .ok es → ∀ e ∈ es, e.height ≤ maxDepth) ↔
      ∀ ds, Spells ds tokens → (∀ d ∈ ds, d.levels ≤ maxDepth) → ∀ d ∈ ds, d.Fits maxDepth) ∧
    ∀ es, Expr.readAll tokens = .ok es → ∀ e ∈ es, e.height ≤ 32641 := by
  refine ⟨⟨fun low ds spelled within d mem => ?_, fun fits es read e mem => ?_⟩,
    fun es read e mem => ?_⟩
  · have read := (readAll_eq_ok_iff tokens _).mpr ⟨ds, spelled, rfl, within⟩
    rw [← d.height_tree_le_iff]
    exact low _ read _ (List.mem_map_of_mem mem)
  · obtain ⟨ds, spelled, rfl, within⟩ := (readAll_eq_ok_iff tokens es).mp read
    obtain ⟨d, within_ds, rfl⟩ := List.mem_map.mp mem
    exact (d.height_tree_le_iff maxDepth).mpr (fits ds spelled within d within_ds)
  · obtain ⟨ds, spelled, rfl, within⟩ := (readAll_eq_ok_iff tokens es).mp read
    obtain ⟨d, within_ds, rfl⟩ := List.mem_map.mp mem
    obtain ⟨rest, longest⟩ := longest_of_spells spelled within_ds
    have low : d.tree.height ≤ tallest 255 := Phrase.height_tree_le longest (within d within_ds)
    rwa [tallest_eq] at low

/-- The tallest tower that is read reaches the bound. -/
theorem exists_read_of_height_tallest :
    ∃ tokens e, Expr.readAll tokens = .ok [e] ∧ e.height = 32641 := by
  refine ⟨_, _, readAll_tower (Nat.lt_succ_self 255), ?_⟩
  rw [height_tree_tower, tallest_eq]

/-- Twenty-three brackets and the marks after them make a tree that is higher than `maxDepth`. -/
theorem tower_higher_than_maxDepth :
    Expr.readAll (tower 23).tokens = .ok [(tower 23).tree] ∧
      maxDepth < (tower 23).tree.height := by
  refine ⟨readAll_tower (by decide), ?_⟩
  rw [height_tree_tower]
  decide

/-- The tower with one pair of brackets fewer is within `maxDepth`. -/
theorem tower_fits :
    Expr.readAll (tower 22).tokens = .ok [(tower 22).tree] ∧
      (∀ ds, Spells ds (tower 22).tokens → (∀ d ∈ ds, d.levels ≤ maxDepth) →
        ∀ d ∈ ds, d.Fits maxDepth) ∧
      (tower 22).tree.height ≤ 32641 := by
  have read := readAll_tower (k := 22) (by decide)
  obtain ⟨low_iff_fits, bound⟩ := height_le_maxDepth_iff_fits (tower 22).tokens
  refine ⟨read, low_iff_fits.mp fun es read' => ?_, bound _ read _ (List.mem_singleton_self _)⟩
  obtain rfl := Except.ok.inj (read.symm.trans read')
  rw [List.forall_mem_singleton, height_tree_tower]
  decide

end Grammar

end MathShorthand
