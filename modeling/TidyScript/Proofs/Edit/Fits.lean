import TidyScript.Proofs.Edit.Weave
import TidyScript.Proofs.Text.Answer
import TidyScript.Proofs.Text.Boundary

/-!
# Fixes that fit a source

An edit fits a source when it replaces the text from one boundary of the source to a later one, or
inserts text at a boundary. A fix fits when its edits do and lie one behind the other. However many
fixes are to be made at once, making them is never refused when each of them fits.
-/

namespace TidyScript

open Text (Boundary byteLength)

/-- The edit replaces what lies between two boundaries of the source. -/
structure Edit.Fits (source : String) (edit : Edit) : Prop where
  start : Boundary source edit.span.start
  stop : Boundary source edit.span.stop
  forward : edit.span.start ≤ edit.span.stop

namespace Fix

/-- The edits fit the source and lie one behind the other. -/
structure Fits (source : String) (fix : Fix) : Prop where
  edits : ∀ edit ∈ fix.edits, edit.Fits source
  ordered : fix.edits.Pairwise fun a b => a.span.stop ≤ b.span.start

variable {source : String}

theorem Fits.single {edit : Edit} (fits : edit.Fits source) : (Fix.single edit).Fits source :=
  ⟨List.forall_mem_singleton.2 fits, List.pairwise_singleton ..⟩

theorem firstOverlap?_eq_none {edits : List Edit}
    (ordered : edits.Pairwise fun a b => a.span.stop ≤ b.span.start) :
    Edit.firstOverlap? edits = none := by
  fun_induction Edit.firstOverlap? edits with
  | case1 => rfl
  | case2 => rfl
  | case3 a b rest _ ih => exact ih ordered.tail
  | case4 a b rest overlap =>
    exact absurd ((List.pairwise_cons.1 ordered).1 b (List.mem_cons_self ..)) overlap

/-- Edits that fit and lie one behind the other make a fix as they are. -/
theorem Fits.ofEdits_eq {fix : Fix} (fits : fix.Fits source) : ofEdits fix.edits = .ok fix := by
  rw [ofEdits, Edit.sort_eq (fun e mem => (fits.edits e mem).forward) fits.ordered,
    firstOverlap?_eq_none fits.ordered]

/-- Edits that fit and lie one behind the other can be made in one walk through the source. -/
theorem exists_woven {edits : List Edit} (fits : ∀ edit ∈ edits, edit.Fits source)
    (ordered : edits.Pairwise fun a b => a.span.stop ≤ b.span.start) {front cs : List Char}
    (text : source.toList = front ++ cs)
    (ahead : ∀ edit ∈ edits, byteLength front ≤ edit.span.start) :
    ∃ out, Woven (byteLength front) cs edits out := by
  induction edits generalizing front cs with
  | nil => exact ⟨cs, .done _ cs⟩
  | cons edit edits ih =>
    rw [List.forall_mem_cons] at fits ahead
    rw [List.pairwise_cons] at ordered
    obtain ⟨⟨before, behind, split, start⟩, ⟨before', rest, split', stop⟩, forward⟩ := fits.1
    obtain ⟨kept, rfl, rfl⟩ :=
      Text.exists_between (text.symm.trans split) (by rw [start]; exact ahead.1)
    obtain ⟨old, rfl, rfl⟩ := Text.exists_between (split.symm.trans split') (by omega)
    obtain ⟨out, woven⟩ := ih fits.2 ordered.2 split' fun later mem => stop ▸ ordered.1 later mem
    obtain ⟨⟨first, last⟩, replacement⟩ := edit
    simp only [Text.byteLength_append] at start stop woven
    subst start stop
    refine ⟨kept ++ (replacement.toList ++ out), ?_⟩
    simpa using @Woven.edit (byteLength front) kept old replacement.toList rest out edits woven

/-- The edits of the fixes that are taken can be made in one walk through the source. -/
theorem exists_woven_accepted {fixes : List Fix} (fits : ∀ fix ∈ fixes, fix.Fits source) :
    ∃ out, Woven 0 source.toList (Edit.sort ((accepted fixes).flatMap Fix.edits)) out := by
  have each : ∀ edit ∈ Edit.sort ((accepted fixes).flatMap Fix.edits), edit.Fits source := by
    intro edit mem
    obtain ⟨fix, memFix, inside⟩ := List.mem_flatMap.1 (Edit.mem_sort.1 mem)
    exact (fits fix (mem_of_mem_accepted memFix)).edits edit inside
  have ordered := pairwise_accepted
    (fun fix mem e inside => ((fits fix mem).edits e inside).forward)
    fun fix mem => (fits fix mem).ordered.imp Or.inl
  exact @exists_woven source _ each ordered [] _ rfl fun _ _ => Nat.zero_le _

/-- **Making fixes that fit is never refused.** -/
theorem exists_applyAll {fixes : List Fix} (fits : ∀ fix ∈ fixes, fix.Fits source) :
    ∃ output, applyAll source fixes = .ok (output, (accepted fixes).length) := by
  obtain ⟨out, woven⟩ := exists_woven_accepted fits
  exact ⟨String.ofList out, applyAll_eq woven⟩

end Fix

end TidyScript
