import MathShorthand.Proofs.Grammar.Respelled
import MathShorthand.Proofs.Tree.Frame
import MathShorthand.Proofs.Tree.InOrder

/-!
# What the texts of tokens have a say in

The kinds of tokens settle the shape of what they stand for, and the texts of names are all that
comes in besides (`readAll_by_kinds`). For trees of one shape that have the same names are the
same (`Expr.eq_of_shape_of_names`), and those names are the texts of the tokens that are names
(`namesAll_of_readAll`).
-/

namespace MathShorthand

/-! ### Trees by shape and names -/

namespace Expr

mutual

theorem shape_respell (f : String → String) (e : Expr) : (e.respell f).shape = e.shape := by
  match e with
  | name text => rfl
  | prefixed op operand | postfixed op operand => rw [respell, shape, shape, operand.shape_respell]
  | binary op left right =>
    rw [respell, shape, shape, left.shape_respell, right.shape_respell]
  | bounded op bounds body =>
    rw [respell, shape, shape, shapes_respellAll f bounds, body.shape_respell]

theorem shapes_respellAll (f : String → String) (es : List Expr) :
    shapes (respellAll f es) = shapes es := by
  match es with
  | [] => rfl
  | e :: es => rw [respellAll, shapes, shapes, e.shape_respell, shapes_respellAll f es]

end

mutual

/-- Nothing but the names is lost in the shape of a tree. -/
theorem eq_of_shape_of_names {e e' : Expr} (same : e'.shape = e.shape)
    (names : e'.names = e.names) : e' = e := by
  match e with
  | .name text =>
    obtain ⟨text', rfl⟩ := eq_name_of_shape same
    rw [(List.cons.inj names).1]
  | .prefixed op operand =>
    obtain ⟨operand', rfl, inner⟩ := eq_prefixed_of_shape same
    rw [eq_of_shape_of_names inner names]
  | .postfixed op operand =>
    obtain ⟨operand', rfl, inner⟩ := eq_postfixed_of_shape same
    rw [eq_of_shape_of_names inner names]
  | .binary op left right =>
    obtain ⟨left', right', rfl, same_left, same_right⟩ := eq_binary_of_shape same
    have count : left'.names.length = left.names.length := by
      rw [length_names, length_names, same_left]
    obtain ⟨names_left, names_right⟩ := List.append_inj names count
    rw [eq_of_shape_of_names same_left names_left, eq_of_shape_of_names same_right names_right]
  | .bounded op bounds body =>
    obtain ⟨bounds', body', rfl, same_bounds, same_body⟩ := eq_bounded_of_shape same
    have count : (namesAll bounds').length = (namesAll bounds).length := by
      rw [length_namesAll, length_namesAll, same_bounds]
    obtain ⟨names_bounds, names_body⟩ := List.append_inj names count
    rw [eq_of_shapes_of_namesAll same_bounds names_bounds,
      eq_of_shape_of_names same_body names_body]

theorem eq_of_shapes_of_namesAll {es es' : List Expr} (same : shapes es' = shapes es)
    (names : namesAll es' = namesAll es) : es' = es := by
  match es with
  | [] => exact eq_nil_of_shapes same
  | e :: es =>
    obtain ⟨first', others', rfl, same_first, same_others⟩ := eq_cons_of_shapes same
    have count : first'.names.length = e.names.length := by
      rw [length_names, length_names, same_first]
    obtain ⟨names_first, names_others⟩ := List.append_inj names count
    rw [eq_of_shape_of_names same_first names_first,
      eq_of_shapes_of_namesAll same_others names_others]

end

end Expr

/-! ### The names among the tokens -/

def Item.name? : Item → Option String
  | name text => some text
  | operator _ => none

def Item.kind : Item → Kind
  | name _ => .name
  | operator op => op

theorem Token.kind_item (t : Token) : t.item.kind = t.kind := by
  unfold Token.item
  split
  · next name => exact name.symm
  · rfl

namespace Expr

mutual

theorem names_eq_filterMap (e : Expr) : e.names = e.reading.filterMap Item.name? := by
  match e with
  | name text => rfl
  | prefixed op operand =>
    rw [names, reading, operand.names_eq_filterMap]
    rfl
  | postfixed op operand =>
    rw [names, reading, List.filterMap_append, operand.names_eq_filterMap]
    exact (List.append_nil _).symm
  | binary op left right =>
    rw [names, reading, List.filterMap_append, left.names_eq_filterMap, right.names_eq_filterMap]
    rfl
  | bounded op bounds body =>
    rw [names, reading, namesAll_eq_filterMap bounds, body.names_eq_filterMap,
      ← List.filterMap_append]
    rfl

theorem namesAll_eq_filterMap (es : List Expr) :
    namesAll es = (readings es).filterMap Item.name? := by
  match es with
  | [] => rfl
  | e :: es =>
    rw [namesAll, readings, List.filterMap_append, e.names_eq_filterMap, namesAll_eq_filterMap es]

end

end Expr

/-- No punctuation is a name. -/
theorem filterMap_items (tokens : List Token) :
    (items tokens).filterMap Item.name? = (tokens.map Token.item).filterMap Item.name? := by
  rw [items, List.filterMap_map, List.filterMap_map, List.filterMap_filter]
  refine congrArg (List.filterMap · tokens) (funext fun t => ?_)
  split
  · rfl
  · next dropped =>
    have not_name : t.kind ≠ .name := by
      intro name
      rw [name] at dropped
      exact dropped (by decide)
    rw [Function.comp_apply, Token.item, if_neg not_name]
    rfl

variable {tokens others : List Token} {es : List Expr}

theorem namesAll_of_readAll (read : Expr.readAll tokens = .ok es) :
    Expr.namesAll es = (tokens.map Token.item).filterMap Item.name? := by
  obtain ⟨ds, spelled, rfl, -⟩ := (Grammar.readAll_eq_ok_iff tokens es).mp read
  rw [Expr.namesAll_eq_filterMap, Grammar.readings_of_spells spelled, filterMap_items]

/-! ### The shape of what is read -/

theorem map_respell_const (same : others.map Token.item = tokens.map Token.item) :
    others.map (Token.respell fun _ => "") = tokens.map (Token.respell fun _ => "") := by
  have bare (ts : List Token) :
      ts.map (Token.respell fun _ => "") = (ts.map Token.item).map fun i => ⟨i.kind, ""⟩ := by
    rw [List.map_map]
    refine List.map_congr_left fun t _ => ?_
    rw [Function.comp_apply, t.kind_item]
    rfl
  rw [bare, bare, same]

/-- Tokens of the same kinds are read where the others are, as trees of the same shapes. -/
theorem exists_readAll_of_kinds
    (same : others.map (Token.respell fun _ => "") = tokens.map (Token.respell fun _ => ""))
    (read : Expr.readAll tokens = .ok es) :
    ∃ es', Expr.readAll others = .ok es' ∧ Expr.shapes es' = Expr.shapes es := by
  have bare := Expr.readAll_respell (f := fun _ => "") rfl tokens
  rw [← same, Expr.readAll_respell rfl, read] at bare
  cases read' : Expr.readAll others with
  | error cause =>
    rw [read'] at bare
    cases bare
  | ok es' =>
    rw [read'] at bare
    have trees := congrArg Expr.shapes (Except.ok.inj bare)
    rw [Expr.shapes_respellAll, Expr.shapes_respellAll] at trees
    exact ⟨es', rfl, trees⟩

theorem readAll_of_items (same : others.map Token.item = tokens.map Token.item)
    (read : Expr.readAll tokens = .ok es) : Expr.readAll others = .ok es := by
  obtain ⟨es', read', shapes⟩ := exists_readAll_of_kinds (map_respell_const same) read
  have names : Expr.namesAll es' = Expr.namesAll es := by
    rw [namesAll_of_readAll read, namesAll_of_readAll read', same]
  rw [read', Expr.eq_of_shapes_of_namesAll shapes names]

/-- If the texts of tokens are changed, what is read changes in its names or in the token of its
error alone. The texts of operators make no difference to what is read at all. -/
theorem readAll_by_kinds {f : String → String} (at_end : f "" = "") (tokens : List Token) :
    Expr.readAll (tokens.map (Token.respell f)) =
        ((Expr.readAll tokens).map (Expr.respellAll f)).mapError (ParseError.respell f) ∧
      ∀ others es, others.map Token.item = tokens.map Token.item →
        Expr.readAll tokens = .ok es → Expr.readAll others = .ok es :=
  ⟨Expr.readAll_respell at_end tokens, fun _ _ => readAll_of_items⟩

/-- Every text is doubled in a sum over one bound, and then in a bracket that is never closed. -/
theorem readAll_by_kinds_doubled :
    let doubled (text : String) := text ++ text
    let sum : List Token := [⟨.sum, "sum"⟩, ⟨.name, "i"⟩, ⟨.ofBody, "of"⟩, ⟨.name, "x"⟩]
    let bracket : List Token := [⟨.leftParen, "("⟩, ⟨.name, "x"⟩, ⟨.sum, "sum"⟩]
    doubled "" = "" ∧
      Expr.readAll (sum.map (Token.respell doubled)) =
        .ok [.bounded .sum [.name "ii"] (.name "xx")] ∧
      Expr.readAll [⟨.sum, "Σ"⟩, ⟨.name, "i"⟩, ⟨.ofBody, ""⟩, ⟨.name, "x"⟩] =
        .ok [.bounded .sum [.name "i"] (.name "x")] ∧
      Expr.readAll (bracket.map (Token.respell doubled)) =
        .error (.expected .rightParen ⟨.sum, "sumsum"⟩) := by
  intro doubled sum bracket
  have at_end : doubled "" = "" := by decide
  have read : Expr.readAll sum = .ok [.bounded .sum [.name "i"] (.name "x")] :=
    Expr.readAll_of_read_to_end rfl
  have failed : Expr.readAll bracket = .error (.expected .rightParen ⟨.sum, "sum"⟩) :=
    Expr.readAll_of_read_eq_error (by decide) rfl
  obtain ⟨changed, unchanged⟩ := readAll_by_kinds at_end sum
  obtain ⟨error, -⟩ := readAll_by_kinds at_end bracket
  rw [read] at changed
  rw [failed] at error
  exact ⟨at_end, changed, unchanged _ _ rfl read, error⟩

end MathShorthand
