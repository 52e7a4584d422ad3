import MathShorthand.Proofs.Grammar.Link

/-!
# Chains of operators

A name and operators of one rank, each with a name behind it, are read as one tree, which nests to
the left or to the right as chains of that rank do. The links of a chain to the left follow each
other, and each takes one level. Those of a chain to the right are operands of one another, and each
takes two: its own and that of its operand.
-/

namespace MathShorthand

/-- An operator and the name behind it. -/
structure ChainLink where
  op : Token
  name : String

def linked : List ChainLink → List Token
  | [] => []
  | l :: ls => l.op :: ⟨.name, l.name⟩ :: linked ls

namespace Expr

def leftNested (start : Expr) : List ChainLink → Expr
  | [] => start
  | l :: ls => leftNested (binary l.op.kind start (name l.name)) ls

def rightNested (first : String) : List ChainLink → Expr
  | [] => name first
  | l :: ls => binary l.op.kind (name first) (rightNested l.name ls)

end Expr

namespace Grammar

variable {m r : Nat} {ls : List ChainLink} {ops : List Token}

theorem stops_linked (ranked : ∀ l ∈ ls, l.op.kind.precedence ≤ r) : Stops r (linked ls) := by
  cases ls with
  | nil => exact Nat.zero_le r
  | cons l ls => exact ranked l List.mem_cons_self

theorem exists_links_left (looser : m ≤ r - 1) (ls : List ChainLink)
    (listed : ∀ l ∈ ls, (l.op.kind, r) ∈ leftOperators) :
    ∃ links : Links m, links.tokens = linked ls ∧
      (∀ start, links.tree start = .leftNested start ls) ∧
      links.levels = ls.length + min ls.length 1 ∧ links.Longest [] := by
  induction ls with
  | nil => exact ⟨.nil, rfl, fun _ => rfl, rfl, trivial⟩
  | cons l ls ih =>
    obtain ⟨first, listed⟩ := List.forall_mem_cons.mp listed
    obtain ⟨others, tokens, tree, levels, longest⟩ := ih listed
    have pos : ∀ p ∈ leftOperators, 0 < p.2 := by decide
    have tighter : m < r := Nat.lt_of_le_pred (pos _ first) looser
    -- the next link ends the operand, since chains of this rank do not go on inside it
    have stops : Stops r (others.tokens ++ []) := by
      rw [List.append_nil, tokens]
      exact stops_linked fun l mem => Nat.le_of_eq (rank_of_left (listed l mem)).1
    refine ⟨.left l.op first tighter (.mk (.name l.name) .nil) others, ?_, ?_, ?_, ?_⟩
    · simp [Links.tokens, Phrase.tokens, Head.first, Head.others, tokens, linked]
    · intro start
      exact tree _
    · simp only [Links.levels, Phrase.levels, Head.levels, levels, List.length_cons]
      omega
    · exact ⟨⟨trivial, trivial, stops⟩, longest⟩

theorem exists_phrase_right (looser : m ≤ r - 1) (text : String) (ls : List ChainLink)
    (listed : ∀ l ∈ ls, (l.op.kind, r) ∈ rightOperators) :
    ∃ d : Phrase m, d.tokens = ⟨.name, text⟩ :: linked ls ∧ d.tree = .rightNested text ls ∧
      d.levels = 2 * ls.length + 1 ∧ d.Longest [] := by
  induction ls generalizing m text with
  | nil =>
    exact ⟨.mk (.name text) .nil, rfl, rfl, rfl, trivial, trivial, Nat.zero_le m⟩
  | cons l ls ih =>
    obtain ⟨first, listed⟩ := List.forall_mem_cons.mp listed
    have pos : ∀ p ∈ rightOperators, 0 < p.2 := by decide
    have tighter : m < r := Nat.lt_of_le_pred (pos _ first) looser
    obtain ⟨right, tokens, tree, levels, longest⟩ := ih (Nat.le_refl (r - 1)) l.name listed
    refine ⟨.mk (.name text) (.right l.op first tighter right .nil), ?_, ?_, ?_, ?_⟩
    · simp [Phrase.tokens, Head.first, Head.others, Links.tokens, tokens, linked]
    · rw [Phrase.tree, Links.tree, Links.tree, tree]
      rfl
    · simp only [Phrase.levels, Head.levels, Links.levels, levels, List.length_cons]
      omega
    · exact ⟨trivial, ⟨longest, trivial⟩, Nat.zero_le m⟩

theorem exists_links_marks (ops : List Token) (listed : ∀ op ∈ ops, op.kind ∈ marks) :
    ∃ links : Links 0, links.tokens = ops ∧
      (∀ start, links.tree start = ops.foldl (fun e op => .postfixed op.kind e) start) ∧
      links.levels = ops.length ∧ links.Longest [] := by
  induction ops with
  | nil => exact ⟨.nil, rfl, fun _ => rfl, rfl, trivial⟩
  | cons op ops ih =>
    obtain ⟨first, listed⟩ := List.forall_mem_cons.mp listed
    obtain ⟨others, tokens, tree, levels, longest⟩ := ih listed
    have tighter : 0 < markRank := by decide
    refine ⟨.mark op first tighter others, ?_, ?_, ?_, longest⟩
    · rw [Links.tokens, tokens]
    · intro start
      exact tree _
    · rw [Links.levels, levels, List.length_cons]

theorem exists_phrase_signs (text : String) (ops : List Token)
    (listed : ∀ op ∈ ops, op.kind ∈ signs) :
    ∃ d : Phrase m, d.tokens = ops ++ [⟨.name, text⟩] ∧
      d.tree = ops.foldr (fun op e => .prefixed op.kind e) (.name text) ∧
      d.levels = ops.length + 1 ∧ d.Longest [] := by
  induction ops generalizing m with
  | nil => exact ⟨.mk (.name text) .nil, rfl, rfl, rfl, trivial, trivial, Nat.zero_le m⟩
  | cons op ops ih =>
    obtain ⟨first, listed⟩ := List.forall_mem_cons.mp listed
    obtain ⟨operand, tokens, tree, levels, longest⟩ := ih (m := signRank) listed
    refine ⟨.mk (.signed op first operand) .nil, ?_, ?_, ?_, longest, trivial, Nat.zero_le m⟩
    · simp [Phrase.tokens, Head.first, Head.others, Links.tokens, tokens]
    · rw [Phrase.tree, Head.tree, Links.tree, tree]
      rfl
    · simp [Phrase.levels, Head.levels, Links.levels, levels]

/-- Links behind a name, which are all the tokens there are. -/
theorem readAll_name_links (text : String) {links : Links 0} (longest : links.Longest []) :
    Expr.readAll (⟨.name, text⟩ :: links.tokens) =
      if links.levels < maxDepth then .ok [links.tree (.name text)] else .error .tooDeep := by
  have read := readAll_of_longest (d := .mk (.name text) links) ⟨trivial, longest, Nat.le_refl 0⟩
  simpa [Phrase.tokens, Head.first, Head.others, Phrase.tree, Head.tree, Phrase.levels, Head.levels,
    Nat.succ_le_iff] using read

end Grammar

open Grammar

/-- Chains are read as one tree, however long, up to the limit. It is met by 255 operators of a
chain to the left, by 128 of one to the right, and by 256 operators on one side of a name. -/
theorem readAll_chain (text : String) :
    (∀ r ls, (∀ l ∈ ls, (l.op.kind, r) ∈ leftOperators) →
      Expr.readAll (⟨.name, text⟩ :: linked ls) =
        if ls.length ≤ 254 then .ok [.leftNested (.name text) ls] else .error .tooDeep) ∧
    (∀ r ls, (∀ l ∈ ls, (l.op.kind, r) ∈ rightOperators) →
      Expr.readAll (⟨.name, text⟩ :: linked ls) =
        if ls.length ≤ 127 then .ok [.rightNested text ls] else .error .tooDeep) ∧
    (∀ ops : List Token, (∀ op ∈ ops, op.kind ∈ marks) →
      Expr.readAll (⟨.name, text⟩ :: ops) =
        if ops.length ≤ 255 then
          .ok [ops.foldl (fun e op => .postfixed op.kind e) (.name text)]
        else .error .tooDeep) ∧
    ∀ ops : List Token, (∀ op ∈ ops, op.kind ∈ signs) →
      Expr.readAll (ops ++ [⟨.name, text⟩]) =
        if ops.length ≤ 255 then
          .ok [ops.foldr (fun op e => .prefixed op.kind e) (.name text)]
        else .error .tooDeep := by
  refine ⟨fun r ls listed => ?_, fun r ls listed => ?_, fun ops listed => ?_, fun ops listed => ?_⟩
  · obtain ⟨links, tokens, tree, levels, longest⟩ :=
      exists_links_left (Nat.zero_le (r - 1)) ls listed
    have within : ls.length + min ls.length 1 < maxDepth ↔ ls.length ≤ 254 := by
      unfold maxDepth
      omega
    rw [← tokens, readAll_name_links text longest, tree, levels]
    simp only [within]
  · obtain ⟨d, tokens, tree, levels, longest⟩ :=
      exists_phrase_right (Nat.zero_le (r - 1)) text ls listed
    have within : 2 * ls.length + 1 ≤ maxDepth ↔ ls.length ≤ 127 := by
      unfold maxDepth
      omega
    rw [← tokens, readAll_of_longest longest, tree, levels]
    simp only [within]
  · obtain ⟨links, tokens, tree, levels, longest⟩ := exists_links_marks ops listed
    have within : ops.length < maxDepth ↔ ops.length ≤ 255 := by
      unfold maxDepth
      omega
    rw [← tokens, readAll_name_links text longest, tree, levels, tokens]
    simp only [within]
  · obtain ⟨d, tokens, tree, levels, longest⟩ := exists_phrase_signs text ops listed
    have within : ops.length + 1 ≤ maxDepth ↔ ops.length ≤ 255 := by
      unfold maxDepth
      omega
    rw [← tokens, readAll_of_longest longest, tree, levels]
    simp only [within]

/-! ### The longest chains -/

/-- `a b a b …`, in all `n` of them. -/
def alternate {α : Type} (a b : α) : Nat → List α
  | 0 => []
  | n + 1 => a :: alternate b a n

theorem length_alternate {α : Type} (a b : α) (n : Nat) : (alternate a b n).length = n := by
  induction n generalizing a b with
  | zero => rfl
  | succ n ih => rw [alternate, List.length_cons, ih]

theorem forall_mem_alternate {α : Type} {p : α → Prop} {a b : α} (holds : p a) (holds' : p b)
    (n : Nat) : ∀ x ∈ alternate a b n, p x := by
  induction n generalizing a b with
  | zero => exact List.forall_mem_nil p
  | succ n ih => exact List.forall_mem_cons.mpr ⟨holds, ih holds' holds⟩

/-- `x - b + c - b …`, `x = b >= c = b …`, `x@#@ …` and `-\-\ … x`, each as long as it can be, and
each with one operator more. -/
theorem readAll_chain_alternate :
    let left := alternate ⟨⟨.minus, "-"⟩, "b"⟩ ⟨⟨.plus, "+"⟩, "c"⟩
    let right := alternate ⟨⟨.equal, "="⟩, "b"⟩ ⟨⟨.geq, ">="⟩, "c"⟩
    let after := alternate (⟨.hat, "@"⟩ : Token) ⟨.vector, "#"⟩
    let before := alternate (⟨.minus, "-"⟩ : Token) ⟨.escape, "\\"⟩
    ((∀ n, ∀ l ∈ left n, (l.op.kind, 6) ∈ leftOperators) ∧
      Expr.readAll (⟨.name, "x"⟩ :: linked (left 254)) =
        .ok [.leftNested (.name "x") (left 254)] ∧
      Expr.readAll (⟨.name, "x"⟩ :: linked (left 255)) = .error .tooDeep) ∧
    ((∀ n, ∀ l ∈ right n, (l.op.kind, 4) ∈ rightOperators) ∧
      Expr.readAll (⟨.name, "x"⟩ :: linked (right 127)) = .ok [.rightNested "x" (right 127)] ∧
      Expr.readAll (⟨.name, "x"⟩ :: linked (right 128)) = .error .tooDeep) ∧
    ((∀ n, ∀ op ∈ after n, op.kind ∈ marks) ∧
      Expr.readAll (⟨.name, "x"⟩ :: after 255) =
        .ok [(after 255).foldl (fun e op => .postfixed op.kind e) (.name "x")] ∧
      Expr.readAll (⟨.name, "x"⟩ :: after 256) = .error .tooDeep) ∧
    (∀ n, ∀ op ∈ before n, op.kind ∈ signs) ∧
      Expr.readAll (before 255 ++ [⟨.name, "x"⟩]) =
        .ok [(before 255).foldr (fun op e => .prefixed op.kind e) (.name "x")] ∧
      Expr.readAll (before 256 ++ [⟨.name, "x"⟩]) = .error .tooDeep := by
  intro left right after before
  have left_listed : ∀ n, ∀ l ∈ left n, (l.op.kind, 6) ∈ leftOperators :=
    forall_mem_alternate (by decide) (by decide)
  have right_listed : ∀ n, ∀ l ∈ right n, (l.op.kind, 4) ∈ rightOperators :=
    forall_mem_alternate (by decide) (by decide)
  have after_listed : ∀ n, ∀ op ∈ after n, op.kind ∈ marks :=
    forall_mem_alternate (by decide) (by decide)
  have before_listed : ∀ n, ∀ op ∈ before n, op.kind ∈ signs :=
    forall_mem_alternate (by decide) (by decide)
  obtain ⟨read_left, read_right, read_after, read_before⟩ := readAll_chain "x"
  refine ⟨⟨left_listed, ?_, ?_⟩, ⟨right_listed, ?_, ?_⟩, ⟨after_listed, ?_, ?_⟩,
    before_listed, ?_, ?_⟩
  · rw [read_left 6 _ (left_listed 254), length_alternate, if_pos (by decide)]
  · rw [read_left 6 _ (left_listed 255), length_alternate, if_neg (by decide)]
  · rw [read_right 4 _ (right_listed 127), length_alternate, if_pos (by decide)]
  · rw [read_right 4 _ (right_listed 128), length_alternate, if_neg (by decide)]
  · rw [read_after _ (after_listed 255), length_alternate, if_pos (by decide)]
  · rw [read_after _ (after_listed 256), length_alternate, if_neg (by decide)]
  · rw [read_before _ (before_listed 255), length_alternate, if_pos (by decide)]
  · rw [read_before _ (before_listed 256), length_alternate, if_neg (by decide)]

end MathShorthand
