import MathShorthand.Proofs.Grammar.Follow

/-!
# Brackets

Counting the brackets that are open settles which of them belong together (`Balanced`). Whatever the
grammar derives is balanced, so a name or a bracket with all that it encloses (`Atom`) is told from
the tokens alone, and is never cut apart by the end of an expression.
-/

namespace MathShorthand

/-- The tokens in brackets. -/
def enclosed (texts : Kind → String) (tokens : List Token) : List Token :=
  ⟨.leftParen, texts .leftParen⟩ :: (tokens ++ [⟨.rightParen, texts .rightParen⟩])

theorem length_enclosed (texts : Kind → String) (tokens : List Token) :
    (enclosed texts tokens).length = tokens.length + 2 := by
  simp [enclosed]

namespace Grammar

/-- A derivation in brackets. -/
def Phrase.enclosed (texts : Kind → String) (d : Phrase 0) {m : Nat} : Phrase m :=
  .mk (.group (texts .leftParen) d (texts .rightParen)) .nil

section

variable (texts : Kind → String) {m : Nat} (d : Phrase 0)

theorem Phrase.tokens_group (links : Links m) :
    (Phrase.mk (.group (texts .leftParen) d (texts .rightParen)) links).tokens =
      MathShorthand.enclosed texts d.tokens ++ links.tokens :=
  rfl

@[simp] theorem Phrase.tokens_enclosed :
    (d.enclosed texts : Phrase m).tokens = MathShorthand.enclosed texts d.tokens := by
  rw [enclosed, tokens_group, Links.tokens, List.append_nil]

@[simp] theorem Phrase.tree_enclosed : (d.enclosed texts : Phrase m).tree = d.tree := rfl

@[simp] theorem Phrase.levels_enclosed : (d.enclosed texts : Phrase m).levels = d.levels + 1 := by
  rw [enclosed, levels, Links.levels, Head.levels, Nat.max_zero]

theorem Phrase.longest_enclosed {d : Phrase 0} (longest : ∀ rest, Stops 0 rest → d.Longest rest)
    {rest : List Token} (stops : Stops m rest) : (d.enclosed texts : Phrase m).Longest rest :=
  ⟨longest _ (Nat.le_refl 0), trivial, stops⟩

end

/-! ### Brackets that match -/

/-- The number of brackets that are open behind the tokens, if `n` are open in front of them. None
if a bracket closes while none is open. -/
def openAfter : Nat → List Token → Option Nat
  | n, [] => some n
  | n, t :: tokens =>
    if t.kind = .leftParen then openAfter (n + 1) tokens
    else if t.kind = .rightParen then if n = 0 then none else openAfter (n - 1) tokens
    else openAfter n tokens

/-- The brackets among the tokens belong together in pairs. -/
def Balanced (tokens : List Token) : Prop := openAfter 0 tokens = some 0

instance (tokens : List Token) : Decidable (Balanced tokens) :=
  inferInstanceAs (Decidable (_ = _))

section

variable {n k : Nat} {t : Token} {tokens front back : List Token}

theorem openAfter_left (left : t.kind = .leftParen) :
    openAfter n (t :: tokens) = openAfter (n + 1) tokens :=
  if_pos left

theorem openAfter_right (right : t.kind = .rightParen) :
    openAfter n (t :: tokens) = if n = 0 then none else openAfter (n - 1) tokens := by
  simp [openAfter, right]

theorem openAfter_other (not_left : t.kind ≠ .leftParen) (not_right : t.kind ≠ .rightParen) :
    openAfter n (t :: tokens) = openAfter n tokens := by
  simp [openAfter, not_left, not_right]

theorem openAfter_append (n : Nat) (front back : List Token) :
    openAfter n (front ++ back) = (openAfter n front).bind fun k => openAfter k back := by
  fun_induction openAfter n front with
  | case1 n => rfl
  | case2 n t front left ih => rw [List.cons_append, openAfter_left left, ih]
  | case3 t front not_left right =>
    rw [List.cons_append, openAfter_right right]
    rfl
  | case4 n t front not_left right some_open ih =>
    rw [List.cons_append, openAfter_right right, if_neg some_open, ih]
  | case5 n t front not_left not_right ih =>
    rw [List.cons_append, openAfter_other not_left not_right, ih]

theorem openAfter_add (opens : openAfter n tokens = some k) (more : Nat) :
    openAfter (n + more) tokens = some (k + more) := by
  fun_induction openAfter n tokens with
  | case1 n =>
    cases opens
    rfl
  | case2 n t tokens left ih =>
    rw [openAfter_left left, Nat.add_right_comm]
    exact ih opens
  | case3 t tokens not_left right => cases opens
  | case4 n t tokens not_left right some_open ih =>
    rw [openAfter_right right, if_neg (by omega), Nat.sub_add_comm (Nat.pos_of_ne_zero some_open)]
    exact ih opens
  | case5 n t tokens not_left not_right ih =>
    rw [openAfter_other not_left not_right]
    exact ih opens

theorem Balanced.openAfter (balanced : Balanced tokens) (n : Nat) :
    openAfter n tokens = some n := by
  have opens := openAfter_add balanced n
  rwa [Nat.zero_add] at opens

theorem balanced_nil : Balanced [] := rfl

theorem Balanced.append (balanced : Balanced front) (balanced' : Balanced back) :
    Balanced (front ++ back) := by
  rw [Balanced, openAfter_append, balanced]
  exact balanced'

theorem Balanced.cons (not_left : t.kind ≠ .leftParen) (not_right : t.kind ≠ .rightParen)
    (balanced : Balanced tokens) : Balanced (t :: tokens) := by
  rwa [Balanced, openAfter_other not_left not_right]

theorem Balanced.brackets (opening closing : String) (balanced : Balanced tokens) :
    Balanced (⟨.leftParen, opening⟩ :: (tokens ++ [⟨.rightParen, closing⟩])) := by
  rw [Balanced, openAfter_left rfl, openAfter_append, balanced.openAfter]
  rfl

/-- Balanced tokens end before a bracket that closes one in front of them. -/
theorem Balanced.not_close (balanced : Balanced front) (right : t.kind = .rightParen) :
    ¬Balanced (front ++ t :: back) := by
  rw [Balanced, openAfter_append, balanced, Option.bind_some, openAfter_right right]
  nofun

theorem Balanced.eq_of_close {front' back' : List Token} {t' : Token} (balanced : Balanced front)
    (balanced' : Balanced front') (right : t.kind = .rightParen) (right' : t'.kind = .rightParen)
    (same : front ++ t :: back = front' ++ t' :: back') :
    front = front' ∧ t :: back = t' :: back' := by
  rcases List.append_eq_append_iff.mp same with ⟨more, rfl, split⟩ | ⟨more, rfl, split⟩
  · cases more with
    | nil => exact ⟨(List.append_nil front).symm, split⟩
    | cons x more =>
      obtain ⟨rfl, -⟩ := List.cons.inj split
      exact absurd balanced' (balanced.not_close right)
  · cases more with
    | nil => exact ⟨List.append_nil front', split.symm⟩
    | cons x more =>
      obtain ⟨rfl, -⟩ := List.cons.inj split
      exact absurd balanced (balanced'.not_close right')

end

/-! ### Atoms -/

/-- The tokens are a name, or a bracket up to the one that closes it. -/
inductive Atom : List Token → Prop where
  | name (text : String) : Atom [⟨.name, text⟩]
  | brackets (opening closing : String) {inner : List Token} (balanced : Balanced inner) :
    Atom (⟨.leftParen, opening⟩ :: (inner ++ [⟨.rightParen, closing⟩]))

/-- The token can only be the first of an atom. -/
def StartsAtom (t : Token) : Prop := t.kind = .name ∨ t.kind = .leftParen

theorem Atom.exists_cons {atom : List Token} (is_atom : Atom atom) :
    ∃ t others, atom = t :: others ∧ StartsAtom t := by
  cases is_atom with
  | name text => exact ⟨_, _, rfl, .inl rfl⟩
  | brackets opening closing balanced => exact ⟨_, _, rfl, .inr rfl⟩

/-- An atom is settled by what it starts with. -/
theorem Atom.eq_of_append {atom atom' back back' : List Token} (is_atom : Atom atom)
    (is_atom' : Atom atom') (same : atom ++ back = atom' ++ back') : atom = atom' ∧ back = back' := by
  cases is_atom with
  | name text =>
    cases is_atom' with
    | name text' =>
      cases same
      exact ⟨rfl, rfl⟩
    | brackets opening closing balanced => cases same
  | brackets opening closing balanced =>
    cases is_atom' with
    | name text' => cases same
    | brackets opening' closing' balanced' =>
      rw [List.cons_append, List.cons_append, List.append_assoc, List.append_assoc] at same
      obtain ⟨same_opening, behind⟩ := List.cons.inj same
      obtain ⟨same_inner, closings⟩ := balanced.eq_of_close balanced' rfl rfl behind
      obtain ⟨same_closing, same_back⟩ := List.cons.inj closings
      rw [same_opening, same_inner, same_closing]
      exact ⟨rfl, same_back⟩

/-! ### Brackets of a derivation -/

mutual

theorem Phrase.balanced_tokens {m : Nat} (d : Phrase m) : Balanced d.tokens := by
  match d with
  | .mk head links => exact head.balanced_tokens.append links.balanced_tokens

theorem Head.balanced_tokens (h : Head) : Balanced (h.first :: h.others) := by
  cases h with
  | name text => rfl
  | group opening inner closing => exact inner.balanced_tokens.brackets opening closing
  | signed op sign operand =>
    have other : ∀ op ∈ signs, op ≠ .leftParen ∧ op ≠ .rightParen := by decide
    obtain ⟨not_left, not_right⟩ := other _ sign
    exact operand.balanced_tokens.cons not_left not_right
  | bound op binder bounds stop body =>
    have other : ∀ op ∈ binders, op ≠ .leftParen ∧ op ≠ .rightParen := by decide
    obtain ⟨not_left, not_right⟩ := other _ binder
    have behind : Balanced (⟨.ofBody, stop⟩ :: body.tokens) :=
      body.balanced_tokens.cons nofun nofun
    exact (bounds.balanced_tokens.append behind).cons not_left not_right

theorem Bounds.balanced_tokens (bs : Bounds) : Balanced bs.tokens := by
  cases bs with
  | none => exact balanced_nil
  | last bound => exact bound.balanced_tokens
  | more bound comma others =>
    have behind : Balanced (⟨.comma, comma⟩ :: others.tokens) :=
      others.balanced_tokens.cons nofun nofun
    exact bound.balanced_tokens.append behind

theorem Links.balanced_tokens {m : Nat} (ls : Links m) : Balanced ls.tokens := by
  match ls with
  | .nil => exact balanced_nil
  | .left op listed tighter right others =>
    have other : ∀ entry ∈ leftOperators, entry.1 ≠ .leftParen ∧ entry.1 ≠ .rightParen := by decide
    obtain ⟨not_left, not_right⟩ := other _ listed
    exact (right.balanced_tokens.append others.balanced_tokens).cons not_left not_right
  | .right op listed tighter right others =>
    have other : ∀ entry ∈ rightOperators, entry.1 ≠ .leftParen ∧ entry.1 ≠ .rightParen := by decide
    obtain ⟨not_left, not_right⟩ := other _ listed
    exact (right.balanced_tokens.append others.balanced_tokens).cons not_left not_right
  | .mark op listed tighter others =>
    have other : ∀ op ∈ marks, op ≠ .leftParen ∧ op ≠ .rightParen := by decide
    obtain ⟨not_left, not_right⟩ := other _ listed
    exact others.balanced_tokens.cons not_left not_right

end

/-- A head that starts an atom is one. -/
theorem Head.atom_of_starts (h : Head) (starts : StartsAtom h.first) : Atom (h.first :: h.others) := by
  cases h with
  | name text => exact .name text
  | group opening inner closing => exact .brackets opening closing inner.balanced_tokens
  | signed op sign operand =>
    have other : ∀ op ∈ signs, ¬(op = .name ∨ op = .leftParen) := by decide
    exact absurd starts (other _ sign)
  | bound op binder bounds stop body =>
    have other : ∀ op ∈ binders, ¬(op = .name ∨ op = .leftParen) := by decide
    exact absurd starts (other _ binder)

end Grammar

end MathShorthand
