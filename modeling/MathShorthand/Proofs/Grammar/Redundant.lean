import MathShorthand.Proofs.Grammar.Brackets
import MathShorthand.Proofs.Grammar.Sequence

/-!
# One more bracket

A bracket around a name, around another bracket or around all of an expression says nothing new: the
same tree is derived with it, and ends at the same place (`exists_spells_encloses`). It only takes
levels, and never more of them than there are tokens (`Phrase.levels_le_length`).
-/

namespace MathShorthand.Grammar

/-- One more bracket stands around the atom that starts with `t` behind `front`. -/
def Encloses (texts : Kind → String) (front : List Token) (t : Token) (back tokens : List Token) :
    Prop :=
  ∃ atom rest, Atom atom ∧ t :: back = atom ++ rest ∧
    tokens = front ++ (enclosed texts atom ++ rest)

section

variable {texts : Kind → String} {t : Token} {front back tokens : List Token}

theorem Encloses.append_left (encloses : Encloses texts front t back tokens)
    (before : List Token) : Encloses texts (before ++ front) t back (before ++ tokens) := by
  obtain ⟨atom, rest, is_atom, split, rfl⟩ := encloses
  exact ⟨atom, rest, is_atom, split, (List.append_assoc ..).symm⟩

theorem Encloses.append_right (encloses : Encloses texts front t back tokens)
    (behind : List Token) : Encloses texts front t (back ++ behind) (tokens ++ behind) := by
  obtain ⟨atom, rest, is_atom, split, rfl⟩ := encloses
  refine ⟨atom, rest ++ behind, is_atom, ?_, ?_⟩
  · rw [← List.cons_append, split, List.append_assoc]
  · rw [List.append_assoc, List.append_assoc]

/-- What stood in front of the bracket still ends there. -/
theorem Encloses.noTighter (encloses : Encloses texts front t back tokens) (behind : List Token) :
    NoTighter (tokens ++ behind) (front ++ t :: back ++ behind) := by
  obtain ⟨atom, rest, -, -, rfl⟩ := encloses
  cases front with
  | nil =>
    have loose : Stops 0 (enclosed texts atom ++ rest ++ behind) := Nat.le_refl 0
    exact NoTighter.of_stops loose _
  | cons first front => exact Nat.le_refl _

/-- The token is among the tokens in front, or among those behind. -/
theorem split_append {before behind : List Token} (split : before ++ behind = front ++ t :: back) :
    (∃ mid, before = front ++ t :: mid ∧ back = mid ++ behind) ∨
      ∃ mid, front = before ++ mid ∧ behind = mid ++ t :: back := by
  rcases List.append_eq_append_iff.mp split with ⟨mid, same, same'⟩ | ⟨mid, same, same'⟩
  · exact .inr ⟨mid, same, same'⟩
  · cases mid with
    | nil => exact .inr ⟨[], by rw [same, List.append_nil, List.append_nil], same'.symm⟩
    | cons x mid =>
      obtain ⟨rfl, rest⟩ := List.cons.inj same'
      exact .inl ⟨mid, same, rest⟩

theorem split_cons {first : Token} {behind : List Token} (other : ¬StartsAtom first)
    (starts : StartsAtom t) (split : first :: behind = front ++ t :: back) :
    ∃ mid, front = first :: mid ∧ behind = mid ++ t :: back := by
  cases front with
  | nil =>
    obtain ⟨rfl, -⟩ := List.cons.inj split
    exact absurd starts other
  | cons x mid =>
    obtain ⟨rfl, same⟩ := List.cons.inj split
    exact ⟨mid, rfl, same⟩

end

/-! ### Derivations with one more bracket -/

/-- Around any atom among the tokens one more bracket leaves the tree, and the ends of all
expressions. -/
def Phrase.Bracketable (texts : Kind → String) {m : Nat} (d : Phrase m) : Prop :=
  ∀ front t back, StartsAtom t → d.tokens = front ++ t :: back →
    ∃ d' : Phrase m, Encloses texts front t back d'.tokens ∧ d'.tree = d.tree ∧
      ∀ rest, d.Longest rest → d'.Longest rest

-- a bracket around all of a head is another head, so the first token is kept out of it
def Head.Bracketable (texts : Kind → String) (h : Head) : Prop :=
  ∀ front t back, StartsAtom t → h.others = front ++ t :: back →
    ∃ h' : Head, h'.first = h.first ∧ Encloses texts front t back h'.others ∧ h'.tree = h.tree ∧
      ∀ rest, h.Longest rest → h'.Longest rest

def Bounds.Bracketable (texts : Kind → String) (bs : Bounds) : Prop :=
  ∀ front t back, StartsAtom t → bs.tokens = front ++ t :: back →
    ∃ bs' : Bounds, Encloses texts front t back bs'.tokens ∧ bs'.trees = bs.trees ∧
      ∀ rest, bs.Longest rest → bs'.Longest rest

def Links.Bracketable (texts : Kind → String) {m : Nat} (ls : Links m) : Prop :=
  ∀ front t back, StartsAtom t → ls.tokens = front ++ t :: back →
    ∃ ls' : Links m, Encloses texts front t back ls'.tokens ∧
      (∀ start, ls'.tree start = ls.tree start) ∧ ∀ rest, ls.Longest rest → ls'.Longest rest

section

variable {texts : Kind → String} {m : Nat}

theorem Phrase.bracketable_mk {head : Head} {links : Links m} (in_head : head.Bracketable texts)
    (in_links : links.Bracketable texts) : (Phrase.mk head links).Bracketable texts := by
  intro front t back starts split
  cases front with
  | nil =>
    -- the atom is the head, which becomes all of an expression between the brackets
    obtain ⟨rfl, rfl⟩ := List.cons.inj split
    let inner : Phrase 0 := .mk head .nil
    refine ⟨.mk (.group (texts .leftParen) inner (texts .rightParen)) links, ?_, rfl, ?_⟩
    · refine ⟨_, links.tokens, head.atom_of_starts starts, rfl, ?_⟩
      rw [Phrase.tokens_group, Phrase.tokens, Links.tokens, List.append_nil]
      rfl
    · intro rest ⟨longest_head, longest_links, stops⟩
      have ends : Stops 0 (⟨.rightParen, texts .rightParen⟩ :: (links.tokens ++ rest)) :=
        Nat.le_refl 0
      exact ⟨⟨head.longest_loosen longest_head (NoTighter.of_stops ends _), trivial, ends⟩,
        longest_links, stops⟩
  | cons first front =>
    obtain ⟨rfl, others⟩ := List.cons.inj split
    rcases split_append others with ⟨mid, inside, rfl⟩ | ⟨mid, rfl, inside⟩
    · obtain ⟨head', same, encloses, tree, longest⟩ := in_head _ _ _ starts inside
      refine ⟨.mk head' links, ?_, ?_, fun rest ⟨longest_head, others⟩ => ?_⟩
      · rw [Phrase.tokens, same]
        exact (encloses.append_right links.tokens).append_left [head.first]
      · rw [Phrase.tree, Phrase.tree, tree]
      · exact ⟨longest _ longest_head, others⟩
    · obtain ⟨links', encloses, tree, longest⟩ := in_links _ _ _ starts inside
      refine ⟨.mk head links', ?_, tree _, fun rest ⟨longest_head, longest_links, stops⟩ => ?_⟩
      · exact encloses.append_left (head.first :: head.others)
      -- the head ends in front of other links, which start no tighter than those before
      · have loose := encloses.noTighter rest
        rw [← inside] at loose
        exact ⟨head.longest_loosen longest_head loose, longest rest longest_links, stops⟩

theorem Head.bracketable_group (opening closing : String) {inner : Phrase 0}
    (in_inner : inner.Bracketable texts) : (Head.group opening inner closing).Bracketable texts := by
  intro front t back starts split
  rcases split_append split with ⟨mid, inside, rfl⟩ | ⟨mid, rfl, inside⟩
  · obtain ⟨inner', encloses, tree, longest⟩ := in_inner _ _ _ starts inside
    exact ⟨.group opening inner' closing, rfl, encloses.append_right _, tree,
      fun rest => longest _⟩
  · obtain ⟨mid, -, none⟩ := split_cons (by simp [StartsAtom]) starts inside
    simp at none

theorem Head.bracketable_signed {op : Token} (sign : op.kind ∈ signs) {operand : Phrase signRank}
    (in_operand : operand.Bracketable texts) : (Head.signed op sign operand).Bracketable texts := by
  intro front t back starts split
  obtain ⟨operand', encloses, tree, longest⟩ := in_operand _ _ _ starts split
  exact ⟨.signed op sign operand', rfl, encloses, congrArg (Expr.prefixed op.kind) tree, longest⟩

theorem Head.bracketable_bound {op : Token} (binder : op.kind ∈ binders) (stop : String)
    {bounds : Bounds} {body : Phrase 0} (in_bounds : bounds.Bracketable texts)
    (in_body : body.Bracketable texts) :
    (Head.bound op binder bounds stop body).Bracketable texts := by
  intro front t back starts split
  rcases split_append split with ⟨mid, inside, rfl⟩ | ⟨mid, rfl, inside⟩
  · obtain ⟨bounds', encloses, trees, longest⟩ := in_bounds _ _ _ starts inside
    refine ⟨.bound op binder bounds' stop body, rfl, encloses.append_right _, ?_, ?_⟩
    · rw [Head.tree, Head.tree, trees]
    · exact fun rest ⟨longest_bounds, longest_body⟩ => ⟨longest _ longest_bounds, longest_body⟩
  · obtain ⟨mid, rfl, behind⟩ := split_cons (by simp [StartsAtom]) starts inside
    obtain ⟨body', encloses, tree, longest⟩ := in_body _ _ _ starts behind
    refine ⟨.bound op binder bounds stop body', rfl, ?_, ?_, ?_⟩
    · exact (encloses.append_left [⟨.ofBody, stop⟩]).append_left bounds.tokens
    · rw [Head.tree, Head.tree, tree]
    · intro rest ⟨longest_bounds, longest_body⟩
      exact ⟨bounds.longest_loosen longest_bounds (Nat.le_refl _), longest rest longest_body⟩

theorem Bounds.bracketable_last {bound : Phrase 0} (in_bound : bound.Bracketable texts) :
    (Bounds.last bound).Bracketable texts := by
  intro front t back starts split
  obtain ⟨bound', encloses, tree, longest⟩ := in_bound _ _ _ starts split
  exact ⟨.last bound', encloses, congrArg (fun e => [e]) tree, longest⟩

theorem Bounds.bracketable_more (comma : String) {bound : Phrase 0} {others : Bounds}
    (in_bound : bound.Bracketable texts) (in_others : others.Bracketable texts) :
    (Bounds.more bound comma others).Bracketable texts := by
  intro front t back starts split
  rcases split_append split with ⟨mid, inside, rfl⟩ | ⟨mid, rfl, inside⟩
  · obtain ⟨bound', encloses, tree, longest⟩ := in_bound _ _ _ starts inside
    refine ⟨.more bound' comma others, encloses.append_right _, ?_, ?_⟩
    · rw [Bounds.trees, Bounds.trees, tree]
    · exact fun rest ⟨longest_bound, longest_others⟩ => ⟨longest _ longest_bound, longest_others⟩
  · obtain ⟨mid, rfl, behind⟩ := split_cons (by simp [StartsAtom]) starts inside
    obtain ⟨others', encloses, trees, longest⟩ := in_others _ _ _ starts behind
    refine ⟨.more bound comma others', ?_, ?_, ?_⟩
    · exact (encloses.append_left [⟨.comma, comma⟩]).append_left bound.tokens
    · rw [Bounds.trees, Bounds.trees, trees]
    · intro rest ⟨longest_bound, longest_others⟩
      exact ⟨bound.longest_loosen longest_bound (Nat.le_refl _), longest rest longest_others⟩

/-- Links of either kind are made of a right operand and the links behind it. -/
theorem Links.bracketable_link {r : Nat} (link : Phrase r → Links m → Links m) {op : Token}
    (other : ¬StartsAtom op)
    (spelled : ∀ right others, (link right others).tokens = op :: (right.tokens ++ others.tokens))
    (tree : ∀ right others start,
      (link right others).tree start = others.tree (.binary op.kind start right.tree))
    (longest : ∀ right others rest, (link right others).Longest rest ↔
      right.Longest (others.tokens ++ rest) ∧ others.Longest rest)
    {right : Phrase r} {others : Links m} (in_right : right.Bracketable texts)
    (in_others : others.Bracketable texts) : (link right others).Bracketable texts := by
  intro front t back starts split
  rw [spelled] at split
  obtain ⟨mid, rfl, behind⟩ := split_cons other starts split
  rcases split_append behind with ⟨mid, inside, rfl⟩ | ⟨mid, rfl, inside⟩
  · obtain ⟨right', encloses, same, longest_right⟩ := in_right _ _ _ starts inside
    refine ⟨link right' others, ?_, fun start => ?_, fun rest ends => ?_⟩
    · rw [spelled]
      exact (encloses.append_right others.tokens).append_left [op]
    · rw [tree, tree, same]
    · obtain ⟨ends_right, ends_others⟩ := (longest right others rest).mp ends
      exact (longest right' others rest).mpr ⟨longest_right _ ends_right, ends_others⟩
  · obtain ⟨others', encloses, same, longest_others⟩ := in_others _ _ _ starts inside
    refine ⟨link right others', ?_, fun start => ?_, fun rest ends => ?_⟩
    · rw [spelled]
      exact encloses.append_left (op :: right.tokens)
    · rw [tree, tree, same]
    · obtain ⟨ends_right, ends_others⟩ := (longest right others rest).mp ends
      have loose := encloses.noTighter rest
      rw [← inside] at loose
      exact (longest right others' rest).mpr
        ⟨right.longest_loosen ends_right loose, longest_others rest ends_others⟩

theorem Links.bracketable_mark {op : Token} (listed : op.kind ∈ marks) (tighter : m < markRank)
    {others : Links m} (in_others : others.Bracketable texts) :
    (Links.mark op listed tighter others).Bracketable texts := by
  intro front t back starts split
  have other : ∀ op ∈ marks, ¬(op = .name ∨ op = .leftParen) := by decide
  obtain ⟨mid, rfl, behind⟩ := split_cons (other _ listed) starts split
  obtain ⟨others', encloses, tree, longest⟩ := in_others _ _ _ starts behind
  exact ⟨.mark op listed tighter others', encloses.append_left [op], fun start => tree _, longest⟩

end

section

variable (texts : Kind → String)

mutual

theorem Phrase.bracketable {m : Nat} (d : Phrase m) : d.Bracketable texts := by
  match d with
  | .mk head links => exact Phrase.bracketable_mk head.bracketable links.bracketable

theorem Head.bracketable (h : Head) : h.Bracketable texts := by
  cases h with
  | name text => exact fun front t back starts split => absurd split (by simp [Head.others])
  | group opening inner closing => exact Head.bracketable_group opening closing inner.bracketable
  | signed op sign operand => exact Head.bracketable_signed sign operand.bracketable
  | bound op binder bounds stop body =>
    exact Head.bracketable_bound binder stop bounds.bracketable body.bracketable

theorem Bounds.bracketable (bs : Bounds) : bs.Bracketable texts := by
  cases bs with
  | none => exact fun front t back starts split => absurd split (by simp [Bounds.tokens])
  | last bound => exact Bounds.bracketable_last bound.bracketable
  | more bound comma others =>
    exact Bounds.bracketable_more comma bound.bracketable others.bracketable

theorem Links.bracketable {m : Nat} (ls : Links m) : ls.Bracketable texts := by
  match ls with
  | .nil => exact fun front t back starts split => absurd split (by simp [Links.tokens])
  | .left op listed tighter right others =>
    have other : ∀ entry ∈ leftOperators, ¬(entry.1 = .name ∨ entry.1 = .leftParen) := by decide
    exact Links.bracketable_link (.left op listed tighter) (other _ listed) (fun _ _ => rfl)
      (fun _ _ _ => rfl) (fun _ _ _ => Iff.rfl) right.bracketable others.bracketable
  | .right op listed tighter right others =>
    have other : ∀ entry ∈ rightOperators, ¬(entry.1 = .name ∨ entry.1 = .leftParen) := by decide
    exact Links.bracketable_link (.right op listed tighter) (other _ listed) (fun _ _ => rfl)
      (fun _ _ _ => rfl) (fun _ _ _ => Iff.rfl) right.bracketable others.bracketable
  | .mark op listed tighter others =>
    exact Links.bracketable_mark listed tighter others.bracketable

end

/-- One more bracket around an atom among the tokens leaves every tree. -/
theorem exists_spells_encloses {ds : List (Phrase 0)} {front back tokens : List Token} {t : Token}
    (starts : StartsAtom t) (spelled : Spells ds tokens) (split : tokens = front ++ t :: back) :
    ∃ ds' tokens', Encloses texts front t back tokens' ∧ Spells ds' tokens' ∧
      ds'.map Phrase.tree = ds.map Phrase.tree := by
  induction ds generalizing front tokens with
  | nil =>
    obtain rfl : tokens = [] := spelled
    simp at split
  | cons d ds ih =>
    obtain ⟨rest, rfl, longest, spelled⟩ := spelled
    rcases split_append split with ⟨mid, inside, rfl⟩ | ⟨mid, rfl, inside⟩
    · obtain ⟨d', encloses, tree, longest'⟩ := d.bracketable texts _ _ _ starts inside
      refine ⟨d' :: ds, d'.tokens ++ rest, encloses.append_right rest,
        ⟨rest, rfl, longest' rest longest, spelled⟩, ?_⟩
      rw [List.map_cons, tree, List.map_cons]
    · obtain ⟨ds', rest', encloses, spelled', trees⟩ := ih spelled inside
      have loose := encloses.noTighter []
      rw [List.append_nil, List.append_nil, ← inside] at loose
      refine ⟨d :: ds', d.tokens ++ rest', encloses.append_left d.tokens,
        ⟨rest', rfl, d.longest_loosen longest loose, spelled'⟩, ?_⟩
      rw [List.map_cons, trees, List.map_cons]

theorem exists_spells_of_atom {ds : List (Phrase 0)} {front atom back : List Token}
    (is_atom : Atom atom) (spelled : Spells ds (front ++ (atom ++ back))) :
    ∃ ds', Spells ds' (front ++ (enclosed texts atom ++ back)) ∧
      ds'.map Phrase.tree = ds.map Phrase.tree := by
  obtain ⟨t, others, rfl, starts⟩ := is_atom.exists_cons
  obtain ⟨ds', tokens', ⟨atom', rest, is_atom', split, rfl⟩, spelled', trees⟩ :=
    exists_spells_encloses texts starts spelled rfl
  obtain ⟨rfl, rfl⟩ := is_atom.eq_of_append is_atom' split
  exact ⟨ds', spelled', trees⟩

/-- A bracket that opens is closed by one behind it. -/
theorem exists_close_of_spells {ds : List (Phrase 0)} {front back : List Token} {opening : String}
    (spelled : Spells ds (front ++ ⟨.leftParen, opening⟩ :: back)) :
    ∃ inner closing rest, Balanced inner ∧ back = inner ++ ⟨.rightParen, closing⟩ :: rest := by
  obtain ⟨ds', tokens', ⟨atom, rest, is_atom, split, -⟩, -, -⟩ :=
    exists_spells_encloses Kind.label (.inr rfl) spelled rfl
  cases is_atom with
  | name text => cases split
  | brackets opening' closing balanced =>
    obtain ⟨-, behind⟩ := List.cons.inj split
    exact ⟨_, closing, rest, balanced, behind.trans (List.append_assoc ..)⟩

end

/-! ### Reading with one more bracket -/

/-- What is read from `before` is also read from `after`, if that is not nested too deep, and a few
tokens are not. -/
def KeepsTrees (before after : List Token) : Prop :=
  ∀ es, Expr.readAll before = .ok es →
    (Expr.readAll after = .ok es ∨ Expr.readAll after = .error .tooDeep) ∧
      (before.length ≤ 253 → Expr.readAll after = .ok es)

theorem keepsTrees_of_spells {before after : List Token} {es : List Expr} {ds : List (Phrase 0)}
    (read : Expr.readAll before = .ok es) (spelled : Spells ds after)
    (trees : ds.map Phrase.tree = es) (longer : after.length = before.length + 2) :
    KeepsTrees before after := by
  intro es' read'
  obtain rfl : es = es' := Except.ok.inj (read.symm.trans read')
  subst trees
  constructor
  · rw [readAll_of_spells spelled]
    split
    · exact .inl rfl
    · exact .inr rfl
  · intro few
    apply readAll_of_few spelled
    rw [longer, maxDepth]
    omega

theorem keepsTrees_atom (texts : Kind → String) (front : List Token) {atom : List Token}
    (is_atom : Atom atom) (back : List Token) :
    KeepsTrees (front ++ (atom ++ back)) (front ++ (enclosed texts atom ++ back)) := by
  intro es read
  obtain ⟨ds, spelled, rfl, -⟩ := (readAll_eq_ok_iff _ es).mp read
  obtain ⟨ds', spelled', trees⟩ := exists_spells_of_atom texts is_atom spelled
  refine keepsTrees_of_spells read spelled' trees ?_ _ read
  simp only [List.length_append, length_enclosed]
  omega

theorem keepsTrees_whole (texts : Kind → String) {tokens : List Token} {e : Expr}
    (read : Expr.readAll tokens = .ok [e]) : KeepsTrees tokens (enclosed texts tokens) := by
  obtain ⟨ds, spelled, trees, -⟩ := (readAll_eq_ok_iff tokens [e]).mp read
  obtain ⟨d, rfl, rfl⟩ := List.map_eq_singleton_iff.mp trees
  obtain ⟨rest, rfl, longest, rfl : rest = []⟩ := spelled
  have enclosed : Spells [d.enclosed texts] (MathShorthand.enclosed texts (d.tokens ++ [])) := by
    refine ⟨[], ?_, ⟨?_, trivial, Nat.le_refl 0⟩, rfl⟩
    · rw [Phrase.tokens_enclosed, List.append_nil, List.append_nil]
    · exact d.longest_loosen longest (Nat.le_refl 0)
  exact keepsTrees_of_spells read enclosed rfl (length_enclosed _ _)

theorem exists_close_of_readAll {front back : List Token} {opening : String} {es : List Expr}
    (read : Expr.readAll (front ++ ⟨.leftParen, opening⟩ :: back) = .ok es) :
    ∃ inner closing rest, Balanced inner ∧ back = inner ++ ⟨.rightParen, closing⟩ :: rest := by
  obtain ⟨ds, spelled, -, -⟩ := (readAll_eq_ok_iff _ es).mp read
  exact exists_close_of_spells spelled

end MathShorthand.Grammar
