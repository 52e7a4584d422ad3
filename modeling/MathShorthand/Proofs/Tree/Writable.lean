import MathShorthand.Expr.Latex
import MathShorthand.Proofs.Grammar.Sequence

/-!
# Trees that can be written

`Expr.latex` fails on a tree exactly if an operator of it stands where it has no symbol. The grammar
puts operators only where they have one (`Phrase.writable_tree`), so whatever is read can be written.
The two sides are tables that know nothing of each other: the lists of the grammar, and the texts
for each position.
-/

namespace MathShorthand

theorem exists_bind_eq_ok_iff {ε α β : Type} {x : Except ε α} {next : α → Except ε β} {p : Prop}
    (after : ∀ a, (∃ b, next a = .ok b) ↔ p) :
    (∃ b, x >>= next = .ok b) ↔ (∃ a, x = .ok a) ∧ p := by
  cases x with
  | error e =>
    constructor
    · rintro ⟨b, same⟩
      cases same
    · rintro ⟨⟨a, same⟩, -⟩
      cases same
  | ok a =>
    constructor
    · intro more
      exact ⟨⟨a, rfl⟩, (after a).mp more⟩
    · rintro ⟨-, holds⟩
      exact (after a).mpr holds

theorem bind_eq_ok {ε α β : Type} {x : Except ε α} {next : α → Except ε β} {b : β}
    (same : x >>= next = .ok b) : ∃ a, x = .ok a ∧ next a = .ok b := by
  cases x with
  | error e => cases same
  | ok a => exact ⟨a, rfl, same⟩

namespace Grammar

/-- The operators between two operands. -/
def connectives : List Kind := (leftOperators ++ rightOperators).map Prod.fst

theorem mem_connectives_of_left {op : Kind} {r : Nat} (listed : (op, r) ∈ leftOperators) :
    op ∈ connectives :=
  List.mem_map_of_mem (List.mem_append_left rightOperators listed)

theorem mem_connectives_of_right {op : Kind} {r : Nat} (listed : (op, r) ∈ rightOperators) :
    op ∈ connectives :=
  List.mem_map_of_mem (List.mem_append_right leftOperators listed)

end Grammar

open Grammar

namespace Kind

/-! ### The operators that a position has texts for -/

theorem exists_latexBefore_iff (op : Kind) (operand : String) :
    (∃ text, op.latexBefore operand = .ok text) ↔ op ∈ signs := by
  cases op <;> simp [latexBefore, signs]

theorem exists_latexAfter_iff (op : Kind) (operand : String) :
    (∃ text, op.latexAfter operand = .ok text) ↔ op ∈ marks := by
  cases op <;> simp [latexAfter, marks]

theorem exists_latexBetween_iff (op : Kind) (left right : String) :
    (∃ text, op.latexBetween left right = .ok text) ↔
      op ∈ connectives := by
  cases op <;> simp [latexBetween, infixSymbol?, connectives, leftOperators, rightOperators]

theorem exists_boundedSymbol?_iff (op : Kind) :
    (∃ symbol, op.boundedSymbol? = some symbol) ↔ op ∈ binders := by
  cases op <;> simp [boundedSymbol?, binders]

end Kind

namespace Expr

mutual

/-- Every operator of the tree stands where it has a symbol. -/
def Writable : Expr → Prop
  | name _ => True
  | prefixed op operand => op ∈ signs ∧ operand.Writable
  | postfixed op operand => op ∈ marks ∧ operand.Writable
  | binary op left right =>
    op ∈ connectives ∧ left.Writable ∧ right.Writable
  | bounded op bounds body => op ∈ binders ∧ AllWritable bounds ∧ body.Writable

def AllWritable : List Expr → Prop
  | [] => True
  | e :: es => e.Writable ∧ AllWritable es

end

theorem exists_latex_binary_iff (op : Kind) (left right : Expr) :
    (∃ text, (binary op left right).latex = .ok text) ↔
      (∃ text, left.latex = .ok text) ∧ (∃ text, right.latex = .ok text) ∧
        op ∈ connectives := by
  rw [latex]
  exact exists_bind_eq_ok_iff fun l => exists_bind_eq_ok_iff fun r =>
    op.exists_latexBetween_iff l r

theorem latexBounds_cons (symbol : String) {bound : Expr} (bounds : List Expr)
    (no_range : ∀ lower upper, bound ≠ binary .upTo lower upper) :
    latexBounds symbol (bound :: bounds) = (do
      let upper ← bound.latex
      let rest ← latexBounds symbol bounds
      .ok ((symbol ++ "^" ++ braced upper) :: rest)) := by
  rw [latexBounds]
  exact no_range

/-- A range is written from its two ends, without its arrow, but the arrow has a symbol as well. -/
theorem exists_latexBounds_cons_iff (symbol : String) (bound : Expr) (bounds : List Expr) :
    (∃ texts, latexBounds symbol (bound :: bounds) = .ok texts) ↔
      (∃ text, bound.latex = .ok text) ∧ ∃ texts, latexBounds symbol bounds = .ok texts := by
  by_cases range : ∃ lower upper, bound = binary .upTo lower upper
  · obtain ⟨lower, upper, rfl⟩ := range
    have listed : Kind.upTo ∈ connectives := by decide
    have ends : (∃ texts, latexBounds symbol (binary .upTo lower upper :: bounds) = .ok texts) ↔
        (∃ text, lower.latex = .ok text) ∧ (∃ text, upper.latex = .ok text) ∧
          (∃ texts, latexBounds symbol bounds = .ok texts) ∧ True := by
      rw [latexBounds]
      exact exists_bind_eq_ok_iff fun l => exists_bind_eq_ok_iff fun u =>
        exists_bind_eq_ok_iff fun rest => iff_true_intro ⟨_, rfl⟩
    rw [ends, exists_latex_binary_iff, and_iff_left listed, and_true, and_assoc]
  · have whole := latexBounds_cons symbol bounds fun lower upper same => range ⟨lower, upper, same⟩
    rw [whole, ← and_true (∃ texts, latexBounds symbol bounds = .ok texts)]
    exact exists_bind_eq_ok_iff fun u => exists_bind_eq_ok_iff fun rest =>
      iff_true_intro ⟨_, rfl⟩

theorem exists_latex_bounded_iff (op : Kind) (bounds : List Expr) (body : Expr) {p : Prop}
    (all : ∀ symbol, (∃ texts, latexBounds symbol bounds = .ok texts) ↔ p) :
    (∃ text, (bounded op bounds body).latex = .ok text) ↔
      op ∈ binders ∧ p ∧ ∃ text, body.latex = .ok text := by
  rw [latex, ← op.exists_boundedSymbol?_iff]
  cases found : op.boundedSymbol? with
  | none => simp
  | some symbol =>
    rw [← all symbol, and_iff_right ⟨symbol, rfl⟩, ← and_true (∃ text, body.latex = .ok text)]
    exact exists_bind_eq_ok_iff fun texts => exists_bind_eq_ok_iff fun text =>
      iff_true_intro ⟨_, rfl⟩

mutual

theorem exists_latex_iff (e : Expr) : (∃ text, e.latex = .ok text) ↔ e.Writable := by
  match e with
  | name text => exact iff_of_true ⟨text, rfl⟩ trivial
  | prefixed op operand =>
    rw [Writable, ← exists_latex_iff operand, and_comm]
    exact exists_bind_eq_ok_iff op.exists_latexBefore_iff
  | postfixed op operand =>
    rw [Writable, ← exists_latex_iff operand, and_comm]
    exact exists_bind_eq_ok_iff op.exists_latexAfter_iff
  | binary op left right =>
    rw [exists_latex_binary_iff, exists_latex_iff left, exists_latex_iff right, ← and_assoc,
      and_comm, Writable]
  | bounded op bounds body =>
    rw [exists_latex_bounded_iff op bounds body fun symbol => exists_latexBounds_iff symbol bounds,
      exists_latex_iff body, Writable]

theorem exists_latexBounds_iff (symbol : String) (bounds : List Expr) :
    (∃ texts, latexBounds symbol bounds = .ok texts) ↔ AllWritable bounds := by
  match bounds with
  | [] => exact iff_of_true ⟨[], rfl⟩ trivial
  | bound :: bounds =>
    rw [exists_latexBounds_cons_iff, exists_latex_iff bound, exists_latexBounds_iff symbol bounds,
      AllWritable]

end

end Expr

namespace Grammar

mutual

theorem Phrase.writable_tree {m : Nat} (d : Phrase m) : d.tree.Writable := by
  match d with
  | .mk head links => exact links.writable_tree head.writable_tree

theorem Head.writable_tree (h : Head) : h.tree.Writable := by
  cases h with
  | name text => exact trivial
  | group opening inner closing => exact inner.writable_tree
  | signed op sign operand => exact ⟨sign, operand.writable_tree⟩
  | bound op binder bounds stop body =>
    exact ⟨binder, bounds.allWritable_trees, body.writable_tree⟩

theorem Bounds.allWritable_trees (bs : Bounds) : Expr.AllWritable bs.trees := by
  cases bs with
  | none => exact trivial
  | last bound => exact ⟨bound.writable_tree, trivial⟩
  | more bound comma others => exact ⟨bound.writable_tree, others.allWritable_trees⟩

theorem Links.writable_tree {m : Nat} (ls : Links m) {start : Expr} (writable : start.Writable) :
    (ls.tree start).Writable := by
  match ls with
  | .nil => exact writable
  | .left op listed tighter right others =>
    exact others.writable_tree ⟨mem_connectives_of_left listed, writable, right.writable_tree⟩
  | .right op listed tighter right others =>
    exact others.writable_tree ⟨mem_connectives_of_right listed, writable, right.writable_tree⟩
  | .mark op listed tighter others => exact others.writable_tree ⟨listed, writable⟩

end

end Grammar

theorem Expr.exists_latex_of_read {room rank : Nat} {tokens rest : List Token} {e : Expr}
    (found : Expr.readWithin room rank tokens = .done e rest) : ∃ text, e.latex = .ok text := by
  obtain ⟨d, -, -, rfl, -⟩ := (Grammar.readWithin_eq_done_iff room rank tokens e rest).mp found
  exact (Expr.exists_latex_iff d.tree).mpr d.writable_tree

theorem Expr.exists_latex_of_readAll {tokens : List Token} {es : List Expr}
    (read : Expr.readAll tokens = .ok es) : ∀ e ∈ es, ∃ text, e.latex = .ok text := by
  obtain ⟨ds, -, rfl, -⟩ := (Grammar.readAll_eq_ok_iff tokens es).mp read
  intro e mem
  obtain ⟨d, -, rfl⟩ := List.mem_map.mp mem
  exact (Expr.exists_latex_iff d.tree).mpr d.writable_tree

end MathShorthand
