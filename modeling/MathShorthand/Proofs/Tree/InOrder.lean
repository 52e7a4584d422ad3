import MathShorthand.Proofs.Grammar.Sequence

/-!
# The order of the tokens

Read in order, the trees of a sequence of tokens give back the tokens without the punctuation.
Nothing is lost, doubled or moved on the way.
-/

namespace MathShorthand

/-- What a tree keeps of a token. -/
inductive Item where
  | name (text : String)
  | operator (op : Kind)
  deriving DecidableEq

namespace Kind

/-- The kinds that leave no trace in a tree. -/
def punctuation : List Kind := [.leftParen, .rightParen, .comma, .ofBody]

end Kind

def Token.item (t : Token) : Item := if t.kind = .name then .name t.text else .operator t.kind

theorem eq_name_of_item {t : Token} {text : String} (item : t.item = .name text) :
    t = ⟨.name, text⟩ := by
  obtain ⟨kind, text'⟩ := t
  unfold Token.item at item
  split at item
  · next named =>
    cases item
    obtain rfl : kind = .name := named
    rfl
  · cases item

/-- The tokens but for the punctuation. -/
def items (tokens : List Token) : List Item :=
  (tokens.filter fun t => t.kind ∉ Kind.punctuation).map Token.item

namespace Expr

mutual

/-- The names and operators of a tree from left to right. An operator over bounds is read first,
then the bounds, then the body. -/
def reading : Expr → List Item
  | name text => [.name text]
  | prefixed op x => .operator op :: x.reading
  | postfixed op x => x.reading ++ [.operator op]
  | binary op left right => left.reading ++ .operator op :: right.reading
  | bounded op bounds body => .operator op :: (readings bounds ++ body.reading)

def readings : List Expr → List Item
  | [] => []
  | e :: es => e.reading ++ readings es

end

end Expr

@[simp] theorem items_nil : items [] = [] := rfl

@[simp] theorem items_append (a b : List Token) : items (a ++ b) = items a ++ items b := by
  simp [items]

theorem items_cons (t : Token) (tokens : List Token) :
    items (t :: tokens) = items [t] ++ items tokens :=
  items_append [t] tokens

theorem items_punctuation (text : String) {k : Kind} (dropped : k ∈ Kind.punctuation) :
    items [⟨k, text⟩] = [] := by
  simp [items, dropped]

theorem items_operator {op : Token} {kinds : List Kind} (listed : op.kind ∈ kinds)
    (kept : ∀ k ∈ kinds, k ≠ .name ∧ k ∉ Kind.punctuation) : items [op] = [.operator op.kind] := by
  obtain ⟨not_name, kept⟩ := kept _ listed
  simp [items, kept, Token.item, not_name]

namespace Grammar

theorem items_left {op : Token} {r : Nat} (listed : (op.kind, r) ∈ leftOperators) :
    items [op] = [.operator op.kind] := by
  have mem : op.kind ∈ leftOperators.map Prod.fst := List.mem_map_of_mem listed
  exact items_operator mem (by decide)

theorem items_right {op : Token} {r : Nat} (listed : (op.kind, r) ∈ rightOperators) :
    items [op] = [.operator op.kind] := by
  have mem : op.kind ∈ rightOperators.map Prod.fst := List.mem_map_of_mem listed
  exact items_operator mem (by decide)

mutual

theorem Phrase.reading_tree {m : Nat} (d : Phrase m) : d.tree.reading = items d.tokens := by
  match d with
  | .mk head links =>
    rw [Phrase.tree, links.reading_tree, head.reading_tree, ← items_append]
    rfl

theorem Head.reading_tree (h : Head) : h.tree.reading = items (h.first :: h.others) := by
  cases h with
  | name text => rfl
  | group opening inner closing =>
    have opened : items [⟨.leftParen, opening⟩] = [] := items_punctuation opening (by decide)
    have closed : items [⟨.rightParen, closing⟩] = [] := items_punctuation closing (by decide)
    rw [items_cons, Head.first, opened, Head.others, items_append, closed, List.append_nil]
    exact inner.reading_tree
  | signed op sign operand =>
    rw [items_cons, Head.first, items_operator sign (by decide), Head.others, ← operand.reading_tree]
    rfl
  | bound op binder bounds stop body =>
    have stopped : items [⟨.ofBody, stop⟩] = [] := items_punctuation stop (by decide)
    rw [items_cons, Head.first, items_operator binder (by decide), Head.others, items_append, items_cons,
      stopped, ← bounds.readings_trees, ← body.reading_tree]
    rfl

theorem Bounds.readings_trees (bs : Bounds) : Expr.readings bs.trees = items bs.tokens := by
  cases bs with
  | none => rfl
  | last bound =>
    rw [Bounds.tokens, ← bound.reading_tree]
    exact List.append_nil _
  | more bound comma others =>
    have parted : items [⟨.comma, comma⟩] = [] := items_punctuation comma (by decide)
    rw [Bounds.tokens, items_append, items_cons, parted, ← bound.reading_tree,
      ← others.readings_trees]
    rfl

theorem Links.reading_tree {m : Nat} (ls : Links m) (start : Expr) :
    (ls.tree start).reading = start.reading ++ items ls.tokens := by
  match ls with
  | .nil => exact (List.append_nil _).symm
  | .left op listed tighter right others =>
    rw [Links.tree, others.reading_tree, Links.tokens, items_cons, items_left listed,
      items_append, ← right.reading_tree]
    simp [Expr.reading]
  | .right op listed tighter right others =>
    rw [Links.tree, others.reading_tree, Links.tokens, items_cons, items_right listed,
      items_append, ← right.reading_tree]
    simp [Expr.reading]
  | .mark op listed tighter others =>
    rw [Links.tree, others.reading_tree, Links.tokens, items_cons, items_operator listed (by decide)]
    simp [Expr.reading]

end

theorem readings_of_spells {ds : List (Phrase 0)} {tokens : List Token}
    (spelled : Spells ds tokens) : Expr.readings (ds.map Phrase.tree) = items tokens := by
  induction ds generalizing tokens with
  | nil =>
    obtain rfl : tokens = [] := spelled
    rfl
  | cons d ds ih =>
    obtain ⟨rest, rfl, -, spelled⟩ := spelled
    rw [List.map_cons, Expr.readings, d.reading_tree, ih spelled, items_append]

end Grammar

/-- The trees of a sequence of tokens, read in order, are its names and operators. -/
theorem readings_of_readAll {tokens : List Token} {es : List Expr}
    (read : Expr.readAll tokens = .ok es) : Expr.readings es = items tokens := by
  obtain ⟨ds, spelled, rfl, -⟩ := (Grammar.readAll_eq_ok_iff tokens es).mp read
  exact Grammar.readings_of_spells spelled

/-- A difference in brackets times a sum over one bound. -/
theorem readings_of_product :
    Expr.readAll [⟨.leftParen, "("⟩, ⟨.name, "a"⟩, ⟨.minus, "-"⟩, ⟨.name, "b"⟩, ⟨.rightParen, ")"⟩,
        ⟨.times, "*"⟩, ⟨.sum, "sum"⟩, ⟨.name, "i"⟩, ⟨.comma, ","⟩, ⟨.ofBody, "of"⟩, ⟨.name, "x"⟩,
        ⟨.hat, "@"⟩] =
      .ok [.binary .times (.binary .minus (.name "a") (.name "b"))
        (.bounded .sum [.name "i"] (.postfixed .hat (.name "x")))] ∧
    Expr.readings [.binary .times (.binary .minus (.name "a") (.name "b"))
        (.bounded .sum [.name "i"] (.postfixed .hat (.name "x")))] =
      [.name "a", .operator .minus, .name "b", .operator .times, .operator .sum, .name "i",
        .name "x", .operator .hat] :=
  have read := Expr.readAll_of_read_to_end rfl
  ⟨read, readings_of_readAll read⟩

end MathShorthand
