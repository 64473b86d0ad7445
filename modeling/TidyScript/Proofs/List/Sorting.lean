/-!
# Stable sorting

Sorting keeps members that may stand in either order as they were. Choosing members before or after
sorting therefore gives the same list, and the sorted list is told by the rows of those that may
stand in either order: whatever else is exchanged in a list, sorting it gives the same.
-/

namespace TidyScript

section Sorting

variable {α : Type} {le : α → α → Bool}
  (trans : ∀ a b c, le a b = true → le b c = true → le a c = true)
  (total : ∀ a b, (le a b || le b a) = true)

include trans total

/-- A member in front of others is put between those that it may not precede and those that it
may. -/
theorem exists_mergeSort_cons (a : α) (l : List α) :
    ∃ front back, (a :: l).mergeSort le = front ++ a :: back ∧ l.mergeSort le = front ++ back ∧
      (∀ other ∈ front, (!le a other) = true) ∧ ∀ other ∈ back, le a other = true := by
  obtain ⟨front, back, whole, rest, before⟩ := List.mergeSort_cons trans total a l
  have sorted := List.pairwise_mergeSort trans total (a :: l)
  rw [whole] at sorted
  exact ⟨front, back, whole, rest, before,
    (List.pairwise_cons.1 (List.pairwise_append.1 sorted).2.1).1⟩

omit trans total in
/-- The place of a member in a list is told by what it may precede. -/
theorem takeWhile_front {a : α} {front back : List α}
    (before : ∀ other ∈ front, (!le a other) = true)
    (behind : ∀ other ∈ back, le a other = true) :
    (front ++ back).takeWhile (fun other => !le a other) = front := by
  rw [List.takeWhile_append_of_pos before]
  cases back with
  | nil => simp
  | cons other back => simp [behind other (List.mem_cons_self ..)]

/-- **Choosing members before or after sorting gives the same list.** -/
theorem filter_mergeSort (keeps : α → Bool) (l : List α) :
    (l.mergeSort le).filter keeps = (l.filter keeps).mergeSort le := by
  induction l with
  | nil => simp
  | cons a l ih =>
    obtain ⟨front, back, whole, rest, before, behind⟩ := exists_mergeSort_cons trans total a l
    rw [rest, List.filter_append] at ih
    rw [whole, List.filter_append, List.filter_cons, List.filter_cons]
    split
    · -- The member stands at the same place in the sorted list and in what is chosen of it.
      obtain ⟨front', back', whole', rest', before', behind'⟩ :=
        exists_mergeSort_cons trans total a (l.filter keeps)
      have same : front.filter keeps ++ back.filter keeps = front' ++ back' := ih.trans rest'
      have sameFront : front.filter keeps = front' := by
        have cut := congrArg (List.takeWhile fun other => !le a other) same
        rwa [takeWhile_front (fun other mem => before other (List.mem_filter.1 mem).1)
          (fun other mem => behind other (List.mem_filter.1 mem).1),
          takeWhile_front before' behind'] at cut
      rw [sameFront, List.append_cancel_left_eq] at same
      rw [whole', sameFront, same]
    · exact ih

omit trans total in
/-- Sorted lists with the same rows of members that may stand in either order are the same. -/
theorem eq_of_filter_eq (refl : ∀ a, le a a = true) {l l' : List α}
    (sorted : l.Pairwise fun a b => le a b = true) (sorted' : l'.Pairwise fun a b => le a b = true)
    (rows : ∀ a, l.filter (fun b => le a b && le b a) = l'.filter fun b => le a b && le b a) :
    l = l' := by
  induction l generalizing l' with
  | nil =>
    cases l' with
    | nil => rfl
    | cons b l' =>
      have row := rows b
      rw [List.filter_cons, if_pos (by simp [refl])] at row
      cases row
  | cons a l ih =>
    have mem : a ∈ l' := by
      have inRow : a ∈ l'.filter fun b => le a b && le b a := by
        rw [← rows a]
        simp [refl]
      exact (List.mem_filter.1 inRow).1
    cases l' with
    | nil => cases mem
    | cons b l' =>
      -- Each head may precede the other, so both head the same row.
      have first : le b a = true := by
        rcases List.mem_cons.1 mem with rfl | behind
        · exact refl a
        · exact (List.pairwise_cons.1 sorted').1 a behind
      have second : le a b = true := by
        have mem' : b ∈ a :: l := by
          have inRow : b ∈ (a :: l).filter fun c => le b c && le c b := by
            rw [rows b]
            simp [refl]
          exact (List.mem_filter.1 inRow).1
        rcases List.mem_cons.1 mem' with rfl | behind
        · exact refl b
        · exact (List.pairwise_cons.1 sorted).1 b behind
      have heads := rows a
      rw [List.filter_cons, List.filter_cons, if_pos (by simp [refl]), if_pos (by simp [first, second])]
        at heads
      obtain ⟨rfl, _⟩ := List.cons.inj heads
      refine congrArg (a :: ·) (ih (List.pairwise_cons.1 sorted).2 (List.pairwise_cons.1 sorted').2
        fun c => ?_)
      have row := rows c
      rw [List.filter_cons, List.filter_cons] at row
      split at row
      · exact (List.cons.inj row).2
      · exact row

/-- **Sorting is told by the rows of members that may stand in either order.** -/
theorem mergeSort_eq_of_filter_eq {l l' : List α}
    (rows : ∀ a, l.filter (fun b => le a b && le b a) = l'.filter fun b => le a b && le b a) :
    l.mergeSort le = l'.mergeSort le := by
  refine eq_of_filter_eq (fun a => by simpa using total a a)
    (List.pairwise_mergeSort trans total l) (List.pairwise_mergeSort trans total l') fun a => ?_
  rw [filter_mergeSort trans total, filter_mergeSort trans total, rows a]

end Sorting

end TidyScript
