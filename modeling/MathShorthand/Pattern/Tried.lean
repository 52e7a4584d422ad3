/-!
# Tried choices

Which choices of a pattern have been tried at which offsets of a text, as a set of bits. Choices
are numbered from zero.
-/

namespace MathShorthand.Pattern

structure Tried where
  choices : Nat
  /-- The bit `offset * choices + choice` is set if `choice` has been tried at `offset`. -/
  bits : Nat

namespace Tried

def none (choices : Nat) : Tried := ⟨choices, 0⟩

def place (t : Tried) (choice offset : Nat) : Nat := offset * t.choices + choice

def contains (t : Tried) (choice offset : Nat) : Bool := t.bits.testBit (t.place choice offset)

def insert (t : Tried) (choice offset : Nat) : Tried :=
  { t with bits := t.bits ||| 1 <<< t.place choice offset }

@[simp] theorem contains_none (choices choice offset : Nat) :
    (none choices).contains choice offset = false := Nat.zero_testBit _

theorem place_inj {t : Tried} {choice choice' offset offset' : Nat} (lt : choice < t.choices)
    (lt' : choice' < t.choices) :
    t.place choice offset = t.place choice' offset' ↔ choice = choice' ∧ offset = offset' := by
  refine ⟨fun same => ?_, fun ⟨h, h'⟩ => h ▸ h' ▸ rfl⟩
  simp only [place] at same
  have offsets : offset = offset' := by
    have left := congrArg (· / t.choices) same
    have pos : 0 < t.choices := Nat.zero_lt_of_lt lt
    simpa [Nat.mul_comm _ t.choices, Nat.mul_add_div pos, Nat.div_eq_of_lt lt,
      Nat.div_eq_of_lt lt'] using left
  subst offsets
  exact ⟨Nat.add_left_cancel same, rfl⟩

theorem contains_insert {t : Tried} {choice choice' offset offset' : Nat}
    (lt : choice < t.choices) (lt' : choice' < t.choices) :
    (t.insert choice offset).contains choice' offset' = true ↔
      choice = choice' ∧ offset = offset' ∨ t.contains choice' offset' = true := by
  have place : (t.insert choice offset).place choice' offset' = t.place choice' offset' := rfl
  rw [contains, place, insert, Nat.testBit_or, Nat.one_shiftLeft, Nat.testBit_two_pow,
    Bool.or_eq_true, decide_eq_true_eq, place_inj lt lt', Or.comm]
  rfl

end Tried

end MathShorthand.Pattern
