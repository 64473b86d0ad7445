import TidyScript.Proofs.Edit.Greedy
import TidyScript.Proofs.List.Sorting

/-!
# Edits that make a fix

Edits make a fix exactly if no two of them overlap. Only neighbours in the sorted list are compared,
but an edit that ends in front of its neighbour ends in front of all that come behind it. So the
first edit starts before all others, the last one ends behind them, and from the one to the other
runs the smallest span that covers them all.
-/

namespace TidyScript

/-- Sorting keeps the edits of one span in their order. -/
theorem Edit.filter_sort (span : Span) (edits : List Edit) :
    (sort edits).filter (fun e => e.span = span) = edits.filter fun e => e.span = span := by
  rw [sort, filter_mergeSort le_trans le_total]
  refine List.mergeSort_of_pairwise (List.pairwise_of_forall_mem_list fun a memA b memB => ?_)
  have same := (of_decide_eq_true (List.mem_filter.1 memA).2).trans
    (of_decide_eq_true (List.mem_filter.1 memB).2).symm
  simp [le, Span.le, same]

namespace Fix

/-- The fix that edits make has all of them, one behind the other. -/
theorem ofEdits_eq_ok_iff {edits : List Edit}
    (forward : ∀ e ∈ edits, e.span.start ≤ e.span.stop) {fix : Fix} :
    ofEdits edits = .ok fix ↔ fix = ⟨Edit.sort edits⟩ ∧
      fix.edits.Pairwise fun a b => a.span.stop ≤ b.span.start := by
  simp only [ofEdits]
  split
  · next overlap =>
    refine ⟨by simp, ?_⟩
    rintro ⟨rfl, ordered⟩
    rw [firstOverlap?_eq_none ordered] at overlap
    cases overlap
  · next free =>
    have ordered := pairwise_of_firstOverlap? free fun e mem => forward e (Edit.mem_sort.1 mem)
    refine ⟨?_, ?_⟩
    · rintro ⟨⟩
      exact ⟨rfl, ordered⟩
    · rintro ⟨rfl, _⟩
      rfl

/-- A span holds the extent of a fix exactly if it holds every edit. -/
theorem contains_extent?_iff {fix : Fix} (forward : ∀ e ∈ fix.edits, e.span.start ≤ e.span.stop)
    (ordered : fix.edits.Pairwise fun a b => a.span.stop ≤ b.span.start) {extent : Span}
    (is : fix.extent? = some extent) (other : Span) :
    other.contains extent = true ↔ ∀ e ∈ fix.edits, other.contains e.span = true := by
  unfold extent? at is
  split at is
  · next first last isFirst isLast =>
    cases is
    simp only [Span.contains_iff]
    constructor
    · intro holds e mem
      obtain ⟨start, stop⟩ := Span.within_ends forward ordered isFirst isLast e mem
      exact ⟨Nat.le_trans holds.1 start, Nat.le_trans stop holds.2⟩
    · intro holds
      exact ⟨(holds first (List.mem_of_head? isFirst)).1,
        (holds last (List.mem_of_getLast? isLast)).2⟩
  · cases is

theorem extent?_eq_none_iff {fix : Fix} : fix.extent? = none ↔ fix.edits = [] := by
  obtain ⟨edits⟩ := fix
  cases edits with
  | nil => simp [extent?]
  | cons e edits => simp [extent?, List.getLast?_cons]

/-- **Edits make a fix exactly if no two of them overlap.** The fix has the given edits, sorted by
where they start and then by where they end, and edits of one span in the given order. Its extent is
the smallest span that covers them all; only a fix without edits has none. -/
theorem exists_ofEdits_iff {edits : List Edit}
    (forward : ∀ e ∈ edits, e.span.start ≤ e.span.stop) :
    ((∃ fix, ofEdits edits = .ok fix) ↔ edits.Pairwise Edit.Apart) ∧
      ∀ fix, ofEdits edits = .ok fix → fix.edits.Perm edits ∧
        (fix.edits.Pairwise fun a b =>
          toLex (a.span.start, a.span.stop) ≤ toLex (b.span.start, b.span.stop)) ∧
        (∀ span, fix.edits.filter (fun e => e.span = span) =
          edits.filter fun e => e.span = span) ∧
        (fix.extent? = none ↔ edits = []) ∧
        ∀ extent, fix.extent? = some extent → ∀ other : Span,
          other.contains extent = true ↔ ∀ e ∈ edits, other.contains e.span = true := by
  have perm : (Edit.sort edits).Perm edits := List.mergeSort_perm edits Edit.le
  simp only [ofEdits_eq_ok_iff forward]
  refine ⟨⟨?_, fun apart => ⟨_, rfl, Edit.pairwise_sort forward apart⟩⟩, ?_⟩
  · rintro ⟨_, rfl, ordered⟩
    exact (perm.pairwise_iff fun {_ _} => Edit.Apart.symm).1 (ordered.imp .inl)
  · rintro _ ⟨rfl, ordered⟩
    refine ⟨perm, (List.pairwise_mergeSort Edit.le_trans Edit.le_total _).imp Edit.le_iff.1,
      fun span => Edit.filter_sort span edits, ?_, fun extent is other => ?_⟩
    · rw [extent?_eq_none_iff, ← List.length_eq_zero_iff, perm.length_eq, List.length_eq_zero_iff]
    · rw [contains_extent?_iff (fun e mem => forward e (Edit.mem_sort.1 mem)) ordered is]
      exact ⟨fun holds e mem => holds e (Edit.mem_sort.2 mem),
        fun holds e mem => holds e (Edit.mem_sort.1 mem)⟩

/-- Two insertions where a replacement ends, one where it starts, all of them out of order. -/
theorem exists_ofEdits_iff_touching :
    let edits := [Edit.insert 3 "a", ⟨⟨1, 3⟩, "b"⟩, Edit.insert 3 "c", Edit.insert 1 "d"]
    edits.Pairwise Edit.Apart ∧ ∃ fix, ofEdits edits = .ok fix ∧ fix.edits.Perm edits ∧
      fix.edits.filter (fun e => e.span = ⟨3, 3⟩) = [Edit.insert 3 "a", Edit.insert 3 "c"] := by
  intro edits
  obtain ⟨made, given⟩ := @exists_ofEdits_iff edits (by decide)
  have apart : edits.Pairwise Edit.Apart := by
    unfold Edit.Apart
    decide
  obtain ⟨fix, is⟩ := made.2 apart
  obtain ⟨perm, _, kept, _⟩ := given fix is
  exact ⟨apart, fix, is, perm, kept ⟨3, 3⟩⟩

end Fix

end TidyScript
