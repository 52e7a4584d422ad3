/-!
# Bytes of a text

Offsets into a text count the bytes of its UTF-8 form. `takeBytes?` and `dropBytes?` cut a text at
such an offset, and `slice?` cuts it at two. A text cannot be cut inside a character, nor behind its
end.
-/

namespace MathShorthand.Text

def byteLength : List Char → Nat
  | [] => 0
  | c :: text => c.utf8Size + byteLength text

/-- The first `n` bytes of a text. -/
def takeBytes? : Nat → List Char → Option (List Char)
  | 0, _ => some []
  | _ + 1, [] => none
  | n + 1, c :: text =>
    if c.utf8Size ≤ n + 1 then (takeBytes? (n + 1 - c.utf8Size) text).map (c :: ·) else none

/-- The text without its first `n` bytes. -/
def dropBytes? : Nat → List Char → Option (List Char)
  | 0, text => some text
  | _ + 1, [] => none
  | n + 1, c :: text => if c.utf8Size ≤ n + 1 then dropBytes? (n + 1 - c.utf8Size) text else none

/-- The text from the byte `start` to the byte `stop`. -/
def slice? (start stop : Nat) (text : List Char) : Option (List Char) :=
  if start ≤ stop then (dropBytes? start text).bind (takeBytes? (stop - start)) else none

@[simp] theorem byteLength_append (a b : List Char) :
    byteLength (a ++ b) = byteLength a + byteLength b := by
  induction a with
  | nil => simp [byteLength]
  | cons c a ih => simp [byteLength, ih, Nat.add_assoc]

@[simp] theorem byteLength_toList (s : String) : byteLength s.toList = s.utf8ByteSize := by
  rw [← String.ofList_toList (s := s), String.toList_ofList]
  generalize s.toList = text
  induction text with
  | nil => simp [byteLength]
  | cons c text ih =>
    rw [byteLength, ih, ← List.singleton_append, String.ofList_append, String.utf8ByteSize_append]
    rw [← String.singleton_eq_ofList, String.utf8ByteSize_singleton]

theorem byteLength_eq_zero (text : List Char) : byteLength text = 0 ↔ text = [] := by
  cases text with
  | nil => simp [byteLength]
  | cons c text => simp [byteLength, Char.utf8Size_pos c, Nat.ne_of_gt]

/-- The first character of a text has bytes of its own. -/
theorem exists_byteLength_cons (c : Char) (text : List Char) :
    ∃ n, byteLength (c :: text) = n + 1 ∧ c.utf8Size ≤ n + 1 ∧
      n + 1 - c.utf8Size = byteLength text := by
  have pos := Char.utf8Size_pos c
  exact ⟨c.utf8Size + byteLength text - 1, by simp only [byteLength]; omega, by omega, by omega⟩

theorem takeBytes?_append (a b : List Char) : takeBytes? (byteLength a) (a ++ b) = some a := by
  induction a with
  | nil => simp [byteLength, takeBytes?]
  | cons c a ih =>
    obtain ⟨n, length, fits, others⟩ := exists_byteLength_cons c a
    rw [length, List.cons_append, takeBytes?, if_pos fits, others, ih]
    rfl

theorem dropBytes?_append (a b : List Char) : dropBytes? (byteLength a) (a ++ b) = some b := by
  induction a with
  | nil => simp [byteLength, dropBytes?]
  | cons c a ih =>
    obtain ⟨n, length, fits, others⟩ := exists_byteLength_cons c a
    rw [length, List.cons_append, dropBytes?, if_pos fits, others, ih]

theorem slice?_append (a b c : List Char) :
    slice? (byteLength a) (byteLength a + byteLength b) (a ++ (b ++ c)) = some b := by
  rw [slice?, if_pos (Nat.le_add_right _ _), dropBytes?_append, Option.bind_some,
    Nat.add_sub_cancel_left, takeBytes?_append]

theorem prefix_of_takeBytes? {n : Nat} {text front : List Char}
    (cut : takeBytes? n text = some front) : front <+: text := by
  fun_induction takeBytes? n text generalizing front with
  | case1 text =>
    cases cut
    exact List.nil_prefix
  | case2 => cases cut
  | case3 n c text fits ih =>
    obtain ⟨more, inside, rfl⟩ := Option.map_eq_some_iff.mp cut
    exact (List.prefix_cons_inj c).mpr (ih inside)
  | case4 => cases cut

theorem length_dropBytes?_le {n : Nat} {text rest : List Char}
    (cut : dropBytes? n text = some rest) : rest.length ≤ text.length := by
  fun_induction dropBytes? n text with
  | case1 text =>
    cases cut
    exact Nat.le_refl _
  | case2 => cases cut
  | case3 n c text fits ih => exact Nat.le_trans (ih cut) (Nat.le_succ _)
  | case4 => cases cut

theorem length_dropBytes?_lt {n : Nat} {text rest : List Char} (some_bytes : n ≠ 0)
    (cut : dropBytes? n text = some rest) : rest.length < text.length := by
  unfold dropBytes? at cut
  split at cut
  · exact absurd rfl some_bytes
  · cases cut
  · split at cut
    · exact Nat.lt_succ_of_le (length_dropBytes?_le cut)
    · cases cut

end MathShorthand.Text
