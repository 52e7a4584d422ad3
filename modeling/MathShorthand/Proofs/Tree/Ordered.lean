import MathShorthand.Proofs.Grammar.Link
import MathShorthand.Proofs.Tree.InOrder

/-!
# Trees without brackets

What is read without brackets nests by the ranks of its operators alone (`Expr.Ordered`). For names
with operators between them this settles the tree: no other one has the same names and operators in
the same order (`ordered_of_readAll`).
-/

namespace MathShorthand

namespace Expr

/-- The operator at the root has the property, if it stands between two operands. -/
def RootHas (P : Kind → Prop) : Expr → Prop
  | binary op _ _ => P op
  | _ => True

/-- A name, or something with a mark behind it. -/
def TakesMark : Expr → Prop
  | name _ | postfixed _ _ => True
  | _ => False

/-- Along the last operands, which are the operand of a sign, a right operand and a body, there is
an operator over bounds. -/
def EndsInBody : Expr → Prop
  | name _ | postfixed _ _ => False
  | prefixed _ x => x.EndsInBody
  | binary _ _ right => right.EndsInBody
  | bounded _ _ _ => True

mutual

/-- Every operand of the tree may stand where it does without a bracket around it. -/
def Ordered : Expr → Prop
  | name _ => True
  | prefixed _ x => x.RootHas (fun _ => False) ∧ x.Ordered
  | postfixed _ x => x.TakesMark ∧ x.Ordered
  | binary op left right =>
    left.RootHas (op.MayHold .left) ∧ ¬left.EndsInBody ∧ right.RootHas (op.MayHold .right) ∧
      left.Ordered ∧ right.Ordered
  | bounded _ bounds body => AllOrdered bounds ∧ body.Ordered

def AllOrdered : List Expr → Prop
  | [] => True
  | e :: es => e.Ordered ∧ AllOrdered es

end

theorem RootHas.imp {P Q : Kind → Prop} {e : Expr} (has : e.RootHas P) (imp : ∀ op, P op → Q op) :
    e.RootHas Q := by
  cases e with
  | binary op left right => exact imp op has
  | _ => exact trivial

theorem RootHas.and {P Q : Kind → Prop} {e : Expr} (p : e.RootHas P) (q : e.RootHas Q) :
    e.RootHas fun op => P op ∧ Q op := by
  cases e with
  | binary op left right => exact ⟨p, q⟩
  | _ => exact trivial

end Expr

namespace Grammar

/-- No bracket is opened. -/
def Bare (tokens : List Token) : Prop := ∀ t ∈ tokens, t.kind ≠ .leftParen

theorem bare_append {front back : List Token} : Bare (front ++ back) ↔ Bare front ∧ Bare back :=
  List.forall_mem_append

theorem bare_cons {t : Token} {tokens : List Token} :
    Bare (t :: tokens) ↔ t.kind ≠ .leftParen ∧ Bare tokens :=
  List.forall_mem_cons

/-- The tree `e` is ordered and ends in front of `rest`. Its operators bind tighter than `m`. -/
structure Placed (m : Nat) (e : Expr) (rest : List Token) : Prop where
  ordered : e.Ordered
  root_ends : e.RootHas fun op => op ∈ connectives ∧ m < op.precedence ∧ Stops op.rightRank rest
  body_ends : e.EndsInBody → Stops 0 rest
  /-- Only a mark could follow. -/
  operand_ends : ¬e.TakesMark → Stops signRank rest

theorem Placed.name (m : Nat) (text : String) (rest : List Token) : Placed m (.name text) rest :=
  ⟨trivial, trivial, fun ends => ends.elim, fun no_mark => absurd trivial no_mark⟩

theorem Placed.prefixed {op : Kind} {x : Expr} {rest : List Token} (m : Nat)
    (operand : Placed signRank x rest) (stops : Stops signRank rest) :
    Placed m (.prefixed op x) rest := by
  have loose : ∀ op ∈ connectives, ¬signRank < op.precedence := by decide
  exact ⟨⟨operand.root_ends.imp fun op ⟨listed, tight, _⟩ => loose op listed tight,
    operand.ordered⟩, trivial, operand.body_ends, fun _ => stops⟩

theorem Placed.bounded {op : Kind} {es : List Expr} {body : Expr} {rest : List Token} (m : Nat)
    (bounds : Expr.AllOrdered es) (operand : body.Ordered) (stops : Stops 0 rest) :
    Placed m (.bounded op es body) rest :=
  ⟨⟨bounds, operand⟩, trivial, fun _ => stops, fun _ => stops.mono (Nat.zero_le _)⟩

theorem Placed.postfixed {m : Nat} {op : Token} {start : Expr} {tokens : List Token}
    (listed : op.kind ∈ marks) (before : Placed m start (op :: tokens)) :
    Placed m (.postfixed op.kind start) tokens := by
  have tight : ∀ op ∈ marks, ¬op.precedence ≤ signRank := by decide
  have takes : start.TakesMark := Classical.byContradiction fun no_mark =>
    tight _ listed (before.operand_ends no_mark)
  exact ⟨⟨takes, before.ordered⟩, trivial, fun ends => ends.elim,
    fun no_mark => absurd trivial no_mark⟩

theorem Placed.binary {m r r' : Nat} {op : Token} {start right : Expr} {tokens rest : List Token}
    (listed : op.kind ∈ connectives) (ranks : op.kind.precedence = r ∧ op.kind.rightRank = r')
    (tight : m < r) (before : Placed m start (op :: tokens)) (operand : Placed r' right rest)
    (stops : Stops r' rest) : Placed m (.binary op.kind start right) rest := by
  obtain ⟨rfl, rfl⟩ := ranks
  refine ⟨⟨?_, fun ends => ?_, ?_, before.ordered, operand.ordered⟩, ⟨listed, tight, stops⟩,
    operand.body_ends, fun _ => ?_⟩
  · exact before.root_ends.imp fun inner ⟨listed_inner, _, goes_on⟩ =>
      (mayHold_left_iff listed listed_inner).mpr goes_on
  · have loose : op.kind.precedence ≤ 0 := before.body_ends ends
    omega
  · exact operand.root_ends.imp fun inner ⟨listed_inner, tight, _⟩ =>
      (mayHold_right_iff listed listed_inner).mpr tight
  · have loose : ∀ op ∈ connectives, op.rightRank ≤ signRank := by decide
    exact stops.mono (loose _ listed)

mutual

theorem Phrase.placed {m : Nat} (d : Phrase m) {rest : List Token} (longest : d.Longest rest)
    (bare : Bare d.tokens) : Placed m d.tree rest := by
  match d with
  | .mk head links =>
    obtain ⟨longest_head, longest_links, stops⟩ := longest
    rw [Phrase.tokens, ← List.cons_append, bare_append] at bare
    exact links.placed (head.placed m longest_head bare.1) longest_links bare.2

theorem Head.placed (h : Head) (m : Nat) {rest : List Token} (longest : h.Longest rest)
    (bare : Bare (h.first :: h.others)) : Placed m h.tree rest := by
  obtain ⟨no_bracket, bare⟩ := bare_cons.mp bare
  cases h with
  | name text => exact Placed.name m text rest
  | group opening inner closing => exact absurd rfl no_bracket
  | signed op sign operand =>
    exact Placed.prefixed m (operand.placed longest bare) (Phrase.stops longest)
  | bound op binder bounds stop body =>
    obtain ⟨longest_bounds, longest_body⟩ := longest
    obtain ⟨bare_bounds, bare_body⟩ := bare_append.mp bare
    have placed := body.placed longest_body (bare_cons.mp bare_body).2
    exact Placed.bounded m (bounds.allOrdered longest_bounds bare_bounds) placed.ordered
      (Phrase.stops longest_body)

theorem Bounds.allOrdered (bs : Bounds) {rest : List Token} (longest : bs.Longest rest)
    (bare : Bare bs.tokens) : Expr.AllOrdered bs.trees := by
  cases bs with
  | none => exact trivial
  | last bound => exact ⟨(bound.placed longest bare).ordered, trivial⟩
  | more bound comma others =>
    obtain ⟨longest_bound, longest_others⟩ := longest
    obtain ⟨bare_bound, bare_others⟩ := bare_append.mp bare
    exact ⟨(bound.placed longest_bound bare_bound).ordered,
      others.allOrdered longest_others (bare_cons.mp bare_others).2⟩

theorem Links.placed {m : Nat} (ls : Links m) {start : Expr} {rest : List Token}
    (before : Placed m start (ls.tokens ++ rest)) (longest : ls.Longest rest)
    (bare : Bare ls.tokens) : Placed m (ls.tree start) rest := by
  match ls with
  | .nil => exact before
  | .left op listed tighter right others =>
    obtain ⟨longest_right, longest_others⟩ := longest
    obtain ⟨bare_right, bare_others⟩ := bare_append.mp (bare_cons.mp bare).2
    have placed := Placed.binary (mem_connectives_of_left listed) (rank_of_left listed) tighter
      before (right.placed longest_right bare_right) (Phrase.stops longest_right)
    exact others.placed placed longest_others bare_others
  | .right op listed tighter right others =>
    obtain ⟨longest_right, longest_others⟩ := longest
    obtain ⟨bare_right, bare_others⟩ := bare_append.mp (bare_cons.mp bare).2
    have placed := Placed.binary (mem_connectives_of_right listed) (rank_of_right listed) tighter
      before (right.placed longest_right bare_right) (Phrase.stops longest_right)
    exact others.placed placed longest_others bare_others
  | .mark op listed tighter others =>
    exact others.placed (before.postfixed listed) longest (bare_cons.mp bare).2

end

theorem ordered_of_spells {ds : List (Phrase 0)} {tokens : List Token} (bare : Bare tokens)
    (spelled : Spells ds tokens) : ∀ e ∈ ds.map Phrase.tree, e.Ordered := by
  induction ds generalizing tokens with
  | nil => exact List.forall_mem_nil _
  | cons d ds ih =>
    obtain ⟨rest, rfl, longest, spelled⟩ := spelled
    obtain ⟨bare, bare_rest⟩ := bare_append.mp bare
    exact List.forall_mem_cons.mpr ⟨(d.placed longest bare).ordered, ih bare_rest spelled⟩

/-! ### Names with operators between them -/

/-- The tokens are names with operators between them, from a name to a name. -/
def Alternating : List Token → Prop
  | [] => False
  | [t] => t.kind = .name
  | t :: op :: tokens => t.kind = .name ∧ op.kind ∈ connectives ∧ Alternating tokens

/-- The tokens can stand behind a name of such a sequence. -/
def GoesOn : List Token → Prop
  | [] => True
  | op :: tokens => op.kind ∈ connectives ∧ Alternating tokens

theorem alternating_cons {t : Token} {tokens : List Token} :
    Alternating (t :: tokens) ↔ t.kind = .name ∧ GoesOn tokens := by
  cases tokens with
  | nil => exact (and_true _).symm.to_iff
  | cons op tokens => exact Iff.rfl

end Grammar

/-- The tree has only names and operators between two operands. -/
def Expr.Plain : Expr → Prop
  | name _ => True
  | binary _ left right => left.Plain ∧ right.Plain
  | _ => False

namespace Grammar

theorem Head.eq_name {h : Head} (named : h.first.kind = .name) : ∃ text, h = .name text := by
  cases h with
  | name text => exact ⟨text, rfl⟩
  | group opening inner closing => cases named
  | signed op sign operand =>
    have other : ∀ op ∈ signs, op ≠ .name := by decide
    exact absurd named (other _ sign)
  | bound op binder bounds stop body =>
    have other : ∀ op ∈ binders, op ≠ .name := by decide
    exact absurd named (other _ binder)

mutual

/-- An expression in such a sequence ends behind a name. -/
theorem Phrase.plain_tree {m : Nat} (d : Phrase m) {rest : List Token}
    (alternating : Alternating (d.tokens ++ rest)) : d.tree.Plain ∧ GoesOn rest := by
  match d with
  | .mk head links =>
    obtain ⟨named, goes_on⟩ := alternating_cons.mp alternating
    obtain ⟨text, rfl⟩ := head.eq_name named
    exact links.plain_tree trivial goes_on

theorem Links.plain_tree {m : Nat} (ls : Links m) {start : Expr} {rest : List Token}
    (plain : start.Plain) (goes_on : GoesOn (ls.tokens ++ rest)) :
    (ls.tree start).Plain ∧ GoesOn rest := by
  match ls with
  | .nil => exact ⟨plain, goes_on⟩
  | .left op listed tighter right others | .right op listed tighter right others =>
    have alternating : Alternating (right.tokens ++ (others.tokens ++ rest)) := by
      rw [← List.append_assoc]
      exact goes_on.2
    obtain ⟨plain_right, goes_on⟩ := right.plain_tree alternating
    exact others.plain_tree ⟨plain, plain_right⟩ goes_on
  | .mark op listed tighter others =>
    have other : ∀ op ∈ marks, op ∉ connectives := by decide
    exact absurd goes_on.1 (other _ listed)

end

theorem GoesOn.eq_nil_of_stops {rest : List Token} (goes_on : GoesOn rest) (stops : Stops 0 rest) :
    rest = [] := by
  cases rest with
  | nil => rfl
  | cons op tokens =>
    have tight : ∀ op ∈ connectives, ¬op.precedence ≤ 0 := by decide
    exact absurd stops (tight _ goes_on.1)

theorem eq_singleton_of_spells {ds : List (Phrase 0)} {tokens : List Token}
    (spelled : Spells ds tokens) (alternating : Alternating tokens) :
    ∃ d, ds = [d] ∧ tokens = d.tokens ∧ d.Longest [] ∧ d.tree.Plain := by
  cases ds with
  | nil =>
    obtain rfl : tokens = [] := spelled
    exact alternating.elim
  | cons d ds =>
    obtain ⟨rest, rfl, longest, spelled⟩ := spelled
    obtain ⟨plain, goes_on⟩ := d.plain_tree alternating
    obtain rfl := goes_on.eq_nil_of_stops ((Phrase.stops longest).mono (Nat.le_refl 0))
    cases ds with
    | nil => exact ⟨d, rfl, List.append_nil _, longest, plain⟩
    | cons d' ds =>
      obtain ⟨rest, same, -⟩ := spelled
      exact absurd (List.append_eq_nil_iff.mp same.symm).1 d'.tokens_ne_nil

/-! ### The derivation of an ordered tree -/

def NameOrConnective (t : Token) : Prop := t.kind = .name ∨ t.kind ∈ connectives

theorem nameOrConnective_of_alternating {tokens : List Token} (alternating : Alternating tokens) :
    ∀ t ∈ tokens, NameOrConnective t := by
  fun_induction Alternating tokens with
  | case1 => exact alternating.elim
  | case2 t => exact List.forall_mem_singleton.mpr (.inl alternating)
  | case3 t op tokens ih =>
    obtain ⟨named, listed, alternating⟩ := alternating
    have others := List.forall_mem_cons.mpr ⟨.inr listed, ih alternating⟩
    exact List.forall_mem_cons.mpr ⟨.inl named, others⟩

theorem items_eq_map {tokens : List Token} (kinds : ∀ t ∈ tokens, NameOrConnective t) :
    items tokens = tokens.map Token.item := by
  have kept : ∀ op ∈ connectives, op ∉ Kind.punctuation := by decide
  rw [items, List.filter_eq_self.mpr]
  intro t mem
  rcases kinds t mem with named | listed
  · rw [named]
    decide
  · exact decide_eq_true (kept _ listed)

theorem kind_of_item {t : Token} {op : Kind} (item : t.item = .operator op) :
    t.kind = op ∧ t.kind ≠ .name := by
  unfold Token.item at item
  split at item
  · cases item
  · next not_name =>
    cases item
    exact ⟨rfl, not_name⟩

/-- An operator at the root leaves its token. -/
theorem rootHas_connective {e : Expr} {tokens : List Token}
    (kinds : ∀ t ∈ tokens, NameOrConnective t) (reading : tokens.map Token.item = e.reading) :
    e.RootHas (· ∈ connectives) := by
  cases e with
  | binary op left right =>
    have read : Item.operator op ∈ tokens.map Token.item := by
      rw [reading]
      exact List.mem_append_right _ List.mem_cons_self
    obtain ⟨t, mem, item⟩ := List.mem_map.mp read
    obtain ⟨rfl, not_name⟩ := kind_of_item item
    exact (kinds t mem).resolve_left not_name
  | _ => exact trivial

/-- Tokens that read in order as an ordered tree have a derivation of it, in front of any links that
may go on from it. -/
theorem exists_phrase_of_ordered (e : Expr) (plain : e.Plain) (ordered : e.Ordered) {m : Nat}
    {tokens : List Token} (kinds : ∀ t ∈ tokens, NameOrConnective t)
    (reading : tokens.map Token.item = e.reading) (links : Links m) {rest : List Token}
    (longest : links.Longest rest) (stops : Stops m rest)
    (root : e.RootHas fun op => m < op.precedence ∧ Stops op.rightRank (links.tokens ++ rest)) :
    ∃ d : Phrase m, d.tokens = tokens ++ links.tokens ∧ d.tree = links.tree e ∧ d.Longest rest := by
  match e with
  | .name text =>
    obtain ⟨t, rfl, item⟩ := List.map_eq_singleton_iff.mp reading
    obtain rfl := eq_name_of_item item
    exact ⟨.mk (.name text) links, rfl, rfl, trivial, longest, stops⟩
  | .binary op left right =>
    obtain ⟨plain_left, plain_right⟩ := plain
    obtain ⟨holds_left, -, holds_right, ordered_left, ordered_right⟩ := ordered
    obtain ⟨tight, ends⟩ := root
    obtain ⟨before, after, rfl, reading_left, reading⟩ := List.map_eq_append_iff.mp reading
    obtain ⟨t, behind, rfl, item, reading_right⟩ := List.map_eq_cons_iff.mp reading
    obtain ⟨kinds_left, kinds⟩ := List.forall_mem_append.mp kinds
    obtain ⟨kind_t, kinds_right⟩ := List.forall_mem_cons.mp kinds
    obtain ⟨rfl, not_name⟩ := kind_of_item item
    have listed := kind_t.resolve_left not_name
    have listed_left := rootHas_connective kinds_left reading_left
    have listed_right := rootHas_connective kinds_right reading_right
    -- the right operand ends in front of the links
    obtain ⟨dr, tokens_right, tree_right, longest_right⟩ :=
      exists_phrase_of_ordered right plain_right ordered_right (m := t.kind.rightRank) kinds_right
        reading_right .nil trivial ends
        ((holds_right.and listed_right).imp fun inner ⟨holds, listed_inner⟩ => by
          have tight := (mayHold_right_iff listed listed_inner).mp holds
          exact ⟨tight, ends.mono (le_rightRank_of_lt listed_inner tight)⟩)
    -- and the left operand in front of the operator, which is one more link
    obtain ⟨links', tokens_links, tree_links, -, longest_links⟩ :=
      exists_link t listed tight dr links
    have tokens_right : dr.tokens = behind := tokens_right.trans (List.append_nil _)
    obtain ⟨d, tokens_d, tree_d, longest_d⟩ :=
      exists_phrase_of_ordered left plain_left ordered_left kinds_left reading_left links'
        (longest_links rest longest_right longest) stops
        ((holds_left.and listed_left).imp fun inner ⟨holds, listed_inner⟩ => by
          have goes_on := (mayHold_left_iff listed listed_inner).mp holds
          rw [tokens_links]
          exact ⟨Nat.lt_of_lt_of_le tight holds.precedence_le, goes_on⟩)
    refine ⟨d, ?_, ?_, longest_d⟩
    · rw [tokens_d, tokens_links, tokens_right, List.append_assoc]
      rfl
    · rw [tree_d, tree_links, tree_right]
      rfl
  | .prefixed op x | .postfixed op x | .bounded op bounds body => exact plain.elim

theorem eq_tree_of_ordered {d : Phrase 0} (alternating : Alternating d.tokens)
    (longest : d.Longest []) {e : Expr} (plain : e.Plain) (reading : e.reading = items d.tokens)
    (ordered : e.Ordered) : e = d.tree := by
  have kinds := nameOrConnective_of_alternating alternating
  rw [items_eq_map kinds] at reading
  have root : e.RootHas fun op => 0 < op.precedence ∧ Stops op.rightRank [] := by
    have tight : ∀ op ∈ connectives, 0 < op.precedence := by decide
    exact (rootHas_connective kinds reading.symm).imp fun op listed =>
      ⟨tight op listed, Nat.zero_le _⟩
  obtain ⟨d', tokens_eq, rfl, longest'⟩ := exists_phrase_of_ordered e plain ordered kinds
    reading.symm (Links.nil : Links 0) trivial (Nat.zero_le _) root
  have same : d'.tokens ++ [] = d.tokens ++ [] := by
    rw [tokens_eq]
    exact List.append_nil _
  exact (Phrase.tree_unique same longest' longest).1

end Grammar

/-- The trees of tokens without brackets are ordered. If the tokens are names with operators between
them, they are one tree, and no other tree of these names and operators in this order is ordered. -/
theorem ordered_of_readAll {tokens : List Token} {es : List Expr} (bare : Grammar.Bare tokens)
    (read : Expr.readAll tokens = .ok es) :
    (∀ e ∈ es, e.Ordered) ∧
      (Grammar.Alternating tokens → ∃ e, es = [e] ∧
        ∀ e' : Expr, e'.Plain ∧ e'.reading = items tokens ∧ e'.Ordered ↔ e' = e) := by
  obtain ⟨ds, spelled, rfl, -⟩ := (Grammar.readAll_eq_ok_iff tokens es).mp read
  have ordered := Grammar.ordered_of_spells bare spelled
  refine ⟨ordered, fun alternating => ?_⟩
  obtain ⟨d, rfl, rfl, longest, plain⟩ := Grammar.eq_singleton_of_spells spelled alternating
  refine ⟨d.tree, rfl, fun e' => ⟨fun ⟨plain', reading, ordered'⟩ => ?_, ?_⟩⟩
  · exact Grammar.eq_tree_of_ordered alternating longest plain' reading ordered'
  · rintro rfl
    exact ⟨plain, d.reading_tree, ordered _ (List.mem_singleton.mpr rfl)⟩

/-- A sign, a mark and a sum in one expression, and a comparison of a name with a difference. -/
theorem ordered_of_readAll_difference :
    (Expr.readAll [⟨.minus, "-"⟩, ⟨.name, "a"⟩, ⟨.hat, "@"⟩, ⟨.times, "*"⟩, ⟨.sum, "sum"⟩,
        ⟨.ofBody, "of"⟩, ⟨.name, "b"⟩, ⟨.minus, "-"⟩, ⟨.name, "c"⟩] =
      .ok [.binary .times (.prefixed .minus (.postfixed .hat (.name "a")))
        (.bounded .sum [] (.binary .minus (.name "b") (.name "c")))] ∧
    Expr.Ordered (.binary .times (.prefixed .minus (.postfixed .hat (.name "a")))
      (.bounded .sum [] (.binary .minus (.name "b") (.name "c"))))) ∧
    Expr.readAll [⟨.name, "a"⟩, ⟨.equal, "="⟩, ⟨.name, "b"⟩, ⟨.minus, "-"⟩, ⟨.name, "c"⟩,
        ⟨.minus, "-"⟩, ⟨.name, "d"⟩] =
      .ok [.binary .equal (.name "a")
        (.binary .minus (.binary .minus (.name "b") (.name "c")) (.name "d"))] ∧
    ∃ e, [.binary .equal (.name "a")
        (.binary .minus (.binary .minus (.name "b") (.name "c")) (.name "d"))] = [e] ∧
      ∀ e' : Expr, e'.Plain ∧ e'.reading = [.name "a", .operator .equal, .name "b",
        .operator .minus, .name "c", .operator .minus, .name "d"] ∧ e'.Ordered ↔ e' = e :=
  have mixed := Expr.readAll_of_read_to_end rfl
  have read := Expr.readAll_of_read_to_end rfl
  have all := (ordered_of_readAll (by simp [Grammar.Bare]) mixed).1
  ⟨⟨mixed, List.forall_mem_singleton.mp all⟩, read,
    (ordered_of_readAll (by simp [Grammar.Bare]) read).2
      ⟨rfl, by decide, rfl, by decide, rfl, by decide, rfl⟩⟩

end MathShorthand
