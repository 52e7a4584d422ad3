import MathShorthand.Proofs.Grammar.Accepted

/-!
# Derivations back to back

A whole sequence of tokens is read exactly if derivations can be laid end to end over all of it,
each of them in no more than `maxDepth` levels.
-/

namespace MathShorthand

namespace Expr

theorem readAll_of_read_eq_done {tokens rest : List Token} {e : Expr}
    (found : read 0 tokens = .done e rest) : readAll tokens = (readAll rest).map (e :: ·) := by
  cases tokens with
  | nil => exact absurd (congrArg Outcome.result found) (result_readWithin_nil maxDepth 0 e)
  | cons token tokens =>
    rw [readAll]
    split
    · next failed => cases found.symm.trans failed
    · next e' rest' read =>
      obtain ⟨same, rests⟩ := Outcome.done_inj (found.symm.trans read)
      subst same rests
      cases readAll rest <;> rfl

theorem readAll_of_read_to_end {tokens : List Token} {e : Expr}
    (found : read 0 tokens = .done e []) : readAll tokens = .ok [e] := by
  rw [readAll_of_read_eq_done found, readAll]
  rfl

theorem readAll_of_read_eq_error {tokens : List Token} {cause : ParseError}
    (some_tokens : tokens ≠ []) (failed : (read 0 tokens).result = .error cause) :
    readAll tokens = .error cause := by
  obtain ⟨token, tokens, rfl⟩ := List.exists_cons_of_ne_nil some_tokens
  rw [readAll]
  split
  · next cause' rest found =>
    rw [found] at failed
    cases failed
    rfl
  · next e rest found =>
    rw [found] at failed
    cases failed

theorem read_of_readAll_eq_ok {token : Token} {tokens : List Token} {es : List Expr}
    (all : readAll (token :: tokens) = .ok es) :
    ∃ e rest others, read 0 (token :: tokens) = .done e rest ∧ readAll rest = .ok others ∧
      es = e :: others := by
  obtain ⟨result, rest, found⟩ : ∃ result rest, read 0 (token :: tokens) = ⟨result, rest⟩ :=
    ⟨_, _, rfl⟩
  cases result with
  | error failed =>
    rw [readAll] at all
    split at all
    · cases all
    · next read => cases found.symm.trans read
  | ok e =>
    rw [readAll_of_read_eq_done found] at all
    cases others : readAll rest with
    | error failed =>
      rw [others] at all
      cases all
    | ok others' =>
      rw [others] at all
      exact ⟨e, rest, others', found, others, (Except.ok.inj all).symm⟩

end Expr

namespace Grammar

/-- The derivations spell the tokens one after another. -/
def Spells : List (Phrase 0) → List Token → Prop
  | [], tokens => tokens = []
  | d :: ds, tokens => ∃ rest, tokens = d.tokens ++ rest ∧ d.Longest rest ∧ Spells ds rest

theorem longest_of_spells {ds : List (Phrase 0)} {tokens : List Token} (spelled : Spells ds tokens)
    {d : Phrase 0} (mem : d ∈ ds) : ∃ rest, d.Longest rest := by
  induction ds generalizing tokens with
  | nil => cases mem
  | cons d' ds ih =>
    obtain ⟨rest, -, longest, spelled⟩ := spelled
    rcases List.mem_cons.mp mem with rfl | mem
    · exact ⟨rest, longest⟩
    · exact ih spelled mem

theorem readAll_eq_ok_iff (tokens : List Token) (es : List Expr) :
    Expr.readAll tokens = .ok es ↔
      ∃ ds, Spells ds tokens ∧ ds.map Phrase.tree = es ∧ ∀ d ∈ ds, d.levels ≤ maxDepth := by
  constructor
  · intro read
    induction es generalizing tokens with
    | nil =>
      cases tokens with
      | nil => exact ⟨[], rfl, rfl, by simp⟩
      | cons token tokens =>
        obtain ⟨e, rest, others, -, -, same⟩ := Expr.read_of_readAll_eq_ok read
        cases same
    | cons e es ih =>
      cases tokens with
      | nil =>
        rw [Expr.readAll] at read
        cases read
      | cons token tokens =>
        obtain ⟨e', rest, others, first, all, same⟩ := Expr.read_of_readAll_eq_ok read
        obtain ⟨rfl, rfl⟩ := List.cons.inj same
        obtain ⟨d, spelled, longest, rfl, le⟩ :=
          (readWithin_eq_done_iff maxDepth 0 _ _ _).mp first
        obtain ⟨ds, spelled_rest, rfl, fits⟩ := ih rest all
        exact ⟨d :: ds, ⟨rest, spelled, longest, spelled_rest⟩, rfl,
          List.forall_mem_cons.mpr ⟨le, fits⟩⟩
  · rintro ⟨ds, spelled, rfl, fits⟩
    induction ds generalizing tokens with
    | nil =>
      obtain rfl : tokens = [] := spelled
      rw [Expr.readAll]
      rfl
    | cons d ds ih =>
      obtain ⟨rest, rfl, longest, spelled⟩ := spelled
      obtain ⟨le, fits⟩ := List.forall_mem_cons.mp fits
      have found := (readWithin_eq_done_iff maxDepth 0 _ _ _).mpr ⟨d, rfl, longest, rfl, le⟩
      rw [Expr.readAll_of_read_eq_done found, ih rest spelled fits]
      rfl

/-- Derivations that are laid end to end give their trees if all of them are within the limit, and
one that is not is met in any case. -/
theorem readAll_of_spells {ds : List (Phrase 0)} {tokens : List Token} (spelled : Spells ds tokens) :
    Expr.readAll tokens =
      if ∀ d ∈ ds, d.levels ≤ maxDepth then .ok (ds.map Phrase.tree) else .error .tooDeep := by
  split
  · next fits => exact (readAll_eq_ok_iff tokens _).mpr ⟨ds, spelled, rfl, fits⟩
  · next deep =>
    induction ds generalizing tokens with
    | nil => exact absurd (List.forall_mem_nil _) deep
    | cons d ds ih =>
      obtain ⟨rest, rfl, longest, spelled⟩ := spelled
      have taken := d.read_takes maxDepth longest
      by_cases within : d.levels ≤ maxDepth
      · have deep_later : ¬∀ d ∈ ds, d.levels ≤ maxDepth := fun fits =>
          deep (List.forall_mem_cons.mpr ⟨within, fits⟩)
        rw [Expr.readAll_of_read_eq_done (taken.1 within), ih spelled deep_later]
        rfl
      · exact Expr.readAll_of_read_eq_error
          (List.append_ne_nil_of_left_ne_nil d.tokens_ne_nil rest)
          (taken.2 (Nat.lt_of_not_le within))

/-- A derivation that spells all the tokens is what they are read as, if it is within the limit. -/
theorem readAll_of_longest {d : Phrase 0} (longest : d.Longest []) :
    Expr.readAll d.tokens = if d.levels ≤ maxDepth then .ok [d.tree] else .error .tooDeep := by
  have spelled : Spells [d] d.tokens := ⟨[], (List.append_nil _).symm, longest, rfl⟩
  rw [readAll_of_spells spelled]
  simp

theorem length_le_of_spells {ds : List (Phrase 0)} {tokens : List Token} (spelled : Spells ds tokens) :
    ∀ d ∈ ds, d.tokens.length ≤ tokens.length := by
  induction ds generalizing tokens with
  | nil => exact List.forall_mem_nil _
  | cons d ds ih =>
    obtain ⟨rest, rfl, -, spelled⟩ := spelled
    rw [List.length_append]
    refine List.forall_mem_cons.mpr ⟨Nat.le_add_right _ _, fun d' mem => ?_⟩
    exact Nat.le_trans (ih spelled d' mem) (Nat.le_add_left _ _)

/-- A few tokens are never nested too deep. -/
theorem readAll_of_few {ds : List (Phrase 0)} {tokens : List Token} (spelled : Spells ds tokens)
    (few : tokens.length ≤ maxDepth) : Expr.readAll tokens = .ok (ds.map Phrase.tree) := by
  have fits : ∀ d ∈ ds, d.levels ≤ maxDepth := by
    intro d mem
    have within := length_le_of_spells spelled d mem
    exact Nat.le_trans d.levels_le_length (Nat.le_trans within few)
  exact (readAll_eq_ok_iff tokens _).mpr ⟨ds, spelled, rfl, fits⟩

end Grammar

end MathShorthand
