import TidyScript.Proofs.Text.Cut

/-!
# Offsets between characters

A byte offset is a boundary of a text when it falls between two of its characters or at one of
its ends. Cutting a text from one boundary to a later one always gives a text.
-/

namespace TidyScript

namespace Span

theorem contains_iff {a b : Span} : a.contains b = true ↔ a.start ≤ b.start ∧ b.stop ≤ a.stop := by
  simp [contains]

/-- Of things one behind the other, the first starts first and the last ends last. -/
theorem within_ends {α : Type} {place : α → Span} {row : List α}
    (forward : ∀ a ∈ row, (place a).start ≤ (place a).stop)
    (ordered : row.Pairwise fun a b => (place a).stop ≤ (place b).start) {first last : α}
    (head : row.head? = some first) (tail : row.getLast? = some last) :
    ∀ a ∈ row, (place first).start ≤ (place a).start ∧ (place a).stop ≤ (place last).stop := by
  intro a mem
  constructor
  · have runs := forward first (List.mem_of_head? head)
    obtain ⟨others, rfl⟩ := List.head?_eq_some_iff.1 head
    rcases List.mem_cons.1 mem with rfl | behind
    · exact Nat.le_refl _
    · exact Nat.le_trans runs (List.rel_of_pairwise_cons ordered behind)
  · have runs := forward last (List.mem_of_getLast? tail)
    obtain ⟨init, rfl⟩ := List.getLast?_eq_some_iff.1 tail
    rcases List.mem_append.1 mem with before | same
    · exact Nat.le_trans ((List.pairwise_append.1 ordered).2.2 a before last (by simp)) runs
    · exact Nat.le_of_eq (by rw [List.mem_singleton.1 same])

end Span

namespace Text

/-- The byte offset falls between two characters of the text, or at one of its ends. -/
def Boundary (source : String) (offset : Nat) : Prop :=
  ∃ front back, source.toList = front ++ back ∧ byteLength front = offset

/-- Of two ways to divide a text, the one whose first part has no more bytes divides it earlier. -/
theorem exists_between {front back front' back' : List Char}
    (same : front ++ back = front' ++ back') (le : byteLength front ≤ byteLength front') :
    ∃ middle, front' = front ++ middle ∧ back = middle ++ back' := by
  rcases List.append_eq_append_iff.1 same with ⟨middle, rfl, rfl⟩ | ⟨middle, rfl, rfl⟩
  · exact ⟨middle, rfl, rfl⟩
  · have empty : middle = [] := by
      apply Classical.byContradiction
      intro nonempty
      have := byteLength_pos nonempty
      rw [byteLength_append] at le
      omega
    subst empty
    exact ⟨[], by simp, by simp⟩

/-- **A text can be cut between any two of its boundaries.** -/
theorem exists_cut {source : String} {a b : Nat} (first : Boundary source a)
    (second : Boundary source b) (le : a ≤ b) : ∃ text, cut source ⟨a, b⟩ = .ok text := by
  obtain ⟨front, back, text, rfl⟩ := first
  obtain ⟨front', back', text', rfl⟩ := second
  obtain ⟨middle, rfl, rfl⟩ := exists_between (text.symm.trans text') le
  refine ⟨String.ofList middle, ?_⟩
  rw [byteLength_append]
  exact cut_middle (by rw [text, List.append_assoc])

/-- The span of the source holds the text. -/
def Shows (source : String) (span : Span) (text : String) : Prop :=
  ∃ front back, source.toList = front ++ text.toList ++ back ∧
    span = ⟨byteLength front, byteLength front + byteLength text.toList⟩

namespace Shows

variable {source text : String} {span : Span}

theorem boundary_start (shows : Shows source span text) : Boundary source span.start := by
  obtain ⟨front, back, parts, rfl⟩ := shows
  exact ⟨front, text.toList ++ back, by rw [parts, List.append_assoc], rfl⟩

theorem boundary_stop (shows : Shows source span text) : Boundary source span.stop := by
  obtain ⟨front, back, parts, rfl⟩ := shows
  exact ⟨front ++ text.toList, back, parts, byteLength_append _ _⟩

/-- What a span holds can be cut out. -/
theorem cut (shows : Shows source span text) : cut source span = .ok text := by
  obtain ⟨front, back, parts, rfl⟩ := shows
  rw [cut_middle parts, String.ofList_toList]

/-- What is cut out of a text stands there. -/
theorem of_cut (is : Text.cut source span = .ok text) : Shows source span text := by
  unfold Text.cut slice? at is
  split at is
  · next middle found =>
    cases is
    split at found
    · next forward =>
      obtain ⟨⟨front, rest⟩, before, found⟩ := Option.bind_eq_some_iff.1 found
      obtain ⟨⟨inner, back⟩, behind, rfl⟩ := Option.map_eq_some_iff.1 found
      obtain ⟨parts, starts⟩ := eq_append_of_splitAtByte? before
      obtain ⟨rfl, length⟩ := eq_append_of_splitAtByte? behind
      refine ⟨front, back, by simp [parts], ?_⟩
      rw [String.toList_ofList, length, starts, Nat.add_sub_of_le forward]
    · cases found
  · cases is

/-- The text of a place inside another is part of the text there. -/
theorem inside {inner : Span} {part : String} (shows : Shows source span text)
    (within : Shows source inner part) (starts : span.start ≤ inner.start)
    (stops : inner.stop ≤ span.stop) :
    ∃ front back, text.toList = front ++ part.toList ++ back := by
  obtain ⟨before, behind, whole, rfl⟩ := shows
  obtain ⟨before', behind', whole', rfl⟩ := within
  rw [whole, List.append_assoc, List.append_assoc] at whole'
  obtain ⟨front, rfl, rest⟩ := exists_between whole' starts
  rw [← List.append_assoc] at rest
  have length : byteLength (front ++ part.toList) ≤ byteLength text.toList := by
    dsimp only at stops
    simp only [byteLength_append] at stops ⊢
    omega
  obtain ⟨back, parts, _⟩ := exists_between rest.symm length
  exact ⟨front, back, parts⟩

end Shows

end Text

end TidyScript
