import TidyScript.Text.Cut

/-!
# Cutting at the seams of a text

A text that is put together from parts can be cut at the seams, and every part comes
out as it went in. The offset of a seam is the number of bytes of all parts in front
of it, so all statements about places speak of byte lengths.
-/

namespace TidyScript.Text

@[simp] theorem byteLength_nil : byteLength [] = 0 := rfl

@[simp] theorem byteLength_cons (c : Char) (cs : List Char) :
    byteLength (c :: cs) = c.utf8Size + byteLength cs := rfl

@[simp] theorem byteLength_append (a b : List Char) :
    byteLength (a ++ b) = byteLength a + byteLength b := by
  induction a with
  | nil => simp
  | cons c a ih => simp [ih, Nat.add_assoc]

theorem byteLength_pos {cs : List Char} (nonempty : cs ≠ []) : 0 < byteLength cs := by
  cases cs with
  | nil => exact absurd rfl nonempty
  | cons c cs => exact Nat.lt_of_lt_of_le c.utf8Size_pos (Nat.le_add_right _ _)

theorem splitAtByte?_zero (cs : List Char) : splitAtByte? 0 cs = some ([], cs) := by
  cases cs <;> simp [splitAtByte?]

/-- A text splits at the seam of its two parts. -/
theorem splitAtByte?_append (a b : List Char) :
    splitAtByte? (byteLength a) (a ++ b) = some (a, b) := by
  induction a with
  | nil => exact splitAtByte?_zero b
  | cons c a ih =>
    have positive := c.utf8Size_pos
    have further : ¬ c.utf8Size + byteLength a < c.utf8Size := by omega
    rw [List.cons_append, splitAtByte?, byteLength_cons, if_neg (by omega), if_neg further,
      Nat.add_sub_cancel_left, ih]
    rfl

/-- Where a text splits, its two parts are put together. -/
theorem eq_append_of_splitAtByte? {offset : Nat} {cs a b : List Char}
    (split : splitAtByte? offset cs = some (a, b)) : cs = a ++ b ∧ byteLength a = offset := by
  fun_induction splitAtByte? offset cs generalizing a b with
  | case1 =>
    cases split
    exact ⟨rfl, rfl⟩
  | case2 => cases split
  | case3 =>
    cases split
    exact ⟨rfl, rfl⟩
  | case4 => cases split
  | case5 offset c cs _ far ih =>
    obtain ⟨⟨front, back⟩, found, parts⟩ := Option.map_eq_some_iff.1 split
    cases parts
    obtain ⟨rfl, length⟩ := ih found
    refine ⟨rfl, ?_⟩
    rw [byteLength_cons, length]
    omega

/-- The middle part of a text is what its span holds. -/
theorem slice?_middle (a b c : List Char) :
    slice? (a ++ b ++ c) ⟨byteLength a, byteLength a + byteLength b⟩ = some b := by
  simp only [slice?, Nat.le_add_right, if_true, List.append_assoc, splitAtByte?_append,
    Option.bind_some, Nat.add_sub_cancel_left, Option.map_some]

/-- Cutting a string at two seams gives the part between them. -/
theorem cut_middle {source : String} {a b c : List Char} (parts : source.toList = a ++ b ++ c) :
    cut source ⟨byteLength a, byteLength a + byteLength b⟩ = .ok (String.ofList b) := by
  rw [cut, parts, slice?_middle]

end TidyScript.Text
