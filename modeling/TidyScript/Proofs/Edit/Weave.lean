import Mathlib.Data.List.Sort
import TidyScript.Edit.Merge
import TidyScript.Proofs.Text.Cut

/-!
# Making edits in one walk

The fixes that are taken do not collide, so their edits, sorted by place, lie one behind the
other. Such edits are made by a single walk through the text, and the walk can be put together
from walks through the parts of the text.
-/

namespace TidyScript

open Text (byteLength)

/-- Making the edits in the characters `cs`, which start at a byte offset, gives `out`. -/
inductive Woven : Nat → List Char → List Edit → List Char → Prop where
  | done (offset : Nat) (cs : List Char) : Woven offset cs [] cs
  | edit {offset : Nat} {kept old new rest out : List Char} {edits : List Edit}
      (more : Woven (offset + byteLength kept + byteLength old) rest edits out) :
      Woven offset (kept ++ (old ++ rest))
        (⟨⟨offset + byteLength kept, offset + byteLength kept + byteLength old⟩, String.ofList new⟩ ::
          edits) (kept ++ (new ++ out))

namespace Woven

variable {offset : Nat} {cs out : List Char} {edits : List Edit}

/-- A single edit behind a kept text. -/
theorem single (offset : Nat) (kept old new : List Char) :
    Woven offset (kept ++ old)
      [⟨⟨offset + byteLength kept, offset + byteLength kept + byteLength old⟩, String.ofList new⟩]
      (kept ++ new) := by
  simpa using @edit offset kept old new [] [] [] (.done _ [])

/-- A text in front is kept. -/
theorem behind (front : List Char) (woven : Woven (offset + byteLength front) cs edits out) :
    Woven offset (front ++ cs) edits (front ++ out) := by
  generalize start : offset + byteLength front = start at woven
  cases woven with
  | done => exact .done offset _
  | @edit _ kept old new rest out edits more =>
    subst start
    have whole := @edit offset (front ++ kept) old new rest out edits
      (by simpa [Nat.add_assoc] using more)
    simpa [Nat.add_assoc] using whole

/-- Walks through two parts make a walk through the whole. -/
theorem append {cs' out' : List Char} {edits' : List Edit} (first : Woven offset cs edits out)
    (second : Woven (offset + byteLength cs) cs' edits' out') :
    Woven offset (cs ++ cs') (edits ++ edits') (out ++ out') := by
  induction first with
  | done offset cs => exact second.behind cs
  | @edit offset kept old new rest out edits more ih =>
    have tail := ih (by simpa [Nat.add_assoc] using second)
    have whole := @edit offset kept old new _ _ _ tail
    simpa using whole

/-- A text behind is kept. -/
theorem before (woven : Woven offset cs edits out) (back : List Char) :
    Woven offset (cs ++ back) edits (out ++ back) := by
  simpa using woven.append (.done _ back)

/-- The walk of `weave`. -/
theorem weave_eq (woven : Woven offset cs edits out) {source : String} {before : List Char}
    (text : source.toList = before ++ cs) (place : byteLength before = offset) :
    Fix.weave source offset edits = .ok (String.ofList out) := by
  induction woven generalizing before with
  | done offset cs =>
    have cut := @Text.cut_middle source before cs [] (by simpa using text)
    rw [Fix.weave, text, Text.byteLength_append, ← place]
    exact cut
  | @edit offset kept old new rest out edits more ih =>
    have cut := @Text.cut_middle source before kept (old ++ rest) (by simpa using text)
    have others := @ih (before ++ kept ++ old) (by simpa using text)
      (by simp [place, Nat.add_assoc])
    rw [place] at cut
    simp only [Fix.weave, cut, others]
    simp [bind, Except.bind, pure, Except.pure, String.append_assoc]

end Woven

namespace Fix

theorem mem_of_mem_takeFrom {taken fixes : List Fix} {fix : Fix}
    (mem : fix ∈ takeFrom taken fixes) : fix ∈ taken ∨ fix ∈ fixes := by
  induction fixes generalizing taken with
  | nil => exact .inl mem
  | cons next fixes ih =>
    rw [takeFrom] at mem
    split at mem
    · rcases ih mem with early | late
      · rcases List.mem_append.1 early with early | same
        · exact .inl early
        · exact .inr (List.mem_singleton.1 same ▸ List.mem_cons_self ..)
      · exact .inr (List.mem_cons_of_mem _ late)
    · rcases ih mem with early | late
      · exact .inl early
      · exact .inr (List.mem_cons_of_mem _ late)

/-- The fixes that are taken do not collide. -/
theorem pairwise_takeFrom {taken fixes : List Fix}
    (apart : taken.Pairwise fun a b => a.collides b = false) :
    (takeFrom taken fixes).Pairwise fun a b => a.collides b = false := by
  induction fixes generalizing taken with
  | nil => exact apart
  | cons next fixes ih =>
    rw [takeFrom]
    split
    · next free =>
      refine ih (List.pairwise_append.2 ⟨apart, List.pairwise_singleton .., ?_⟩)
      intro a mem b same
      obtain rfl := List.mem_singleton.1 same
      simpa using List.all_eq_true.1 free a mem
    · exact ih apart

end Fix

namespace Edit

theorem le_trans (a b c : Edit) (first : a.le b = true) (second : b.le c = true) :
    a.le c = true := by
  simp only [le, Span.le, Bool.or_eq_true, Bool.and_eq_true, decide_eq_true_eq, beq_iff_eq] at *
  omega

theorem le_total (a b : Edit) : (a.le b || b.le a) = true := by
  simp only [le, Span.le, Bool.or_eq_true, Bool.and_eq_true, decide_eq_true_eq, beq_iff_eq]
  omega

theorem mem_sort {edits : List Edit} {e : Edit} : e ∈ sort edits ↔ e ∈ edits :=
  (List.mergeSort_perm edits le).mem_iff

/-- Edits that lie one behind the other are sorted. -/
theorem sort_eq {edits : List Edit} (forward : ∀ e ∈ edits, e.span.start ≤ e.span.stop)
    (ordered : edits.Pairwise fun a b => a.span.stop ≤ b.span.start) : sort edits = edits := by
  refine List.mergeSort_of_pairwise (List.Pairwise.imp_of_mem ?_ ordered)
  intro a b memA memB behind
  have := forward a memA
  have := forward b memB
  simp only [le, Span.le, Bool.or_eq_true, Bool.and_eq_true, decide_eq_true_eq, beq_iff_eq]
  omega

/-- One of the edits ends before the other starts. -/
def Apart (a b : Edit) : Prop :=
  a.span.stop ≤ b.span.start ∨ b.span.stop ≤ a.span.start

theorem Apart.symm {a b : Edit} (apart : a.Apart b) : b.Apart a :=
  Or.symm apart

/-- Edits that do not collide are apart. -/
theorem apart_of_collides {a b : Edit} (forwardA : a.span.start ≤ a.span.stop)
    (forwardB : b.span.start ≤ b.span.stop) (free : a.span.collides b.span = false) :
    a.Apart b := by
  unfold Span.collides at free
  unfold Apart
  split at free
  · rw [decide_eq_false_iff_not] at free
    omega
  · simp only [Bool.and_eq_false_iff, decide_eq_false_iff_not] at free
    omega

/-- Edits that are apart lie one behind the other once they are sorted. -/
theorem pairwise_sort {edits : List Edit} (forward : ∀ e ∈ edits, e.span.start ≤ e.span.stop)
    (apart : edits.Pairwise Apart) :
    (sort edits).Pairwise fun a b => a.span.stop ≤ b.span.start := by
  have perm := List.mergeSort_perm edits le
  have apart := (perm.pairwise_iff fun {_ _} => Apart.symm).2 apart
  refine List.Pairwise.imp_of_mem ?_ ((List.pairwise_mergeSort le_trans le_total edits).and apart)
  rintro a b memA memB ⟨ordered, apart⟩
  have forwardA := forward a (mem_sort.1 memA)
  have forwardB := forward b (mem_sort.1 memB)
  simp only [le, Span.le, Bool.or_eq_true, Bool.and_eq_true, decide_eq_true_eq, beq_iff_eq] at ordered
  unfold Apart at apart
  omega

end Edit

variable {fixes : List Fix} {fix : Fix}

/-- The fixes that are taken are given ones. -/
theorem Fix.mem_of_mem_accepted (mem : fix ∈ accepted fixes) : fix ∈ fixes := by
  rcases mem_of_mem_takeFrom mem with none | given
  · cases none
  · exact given

/-- **The edits of the fixes that are taken lie one behind the other**, when those of each fix are
apart. -/
theorem Fix.pairwise_accepted
    (forward : ∀ fix ∈ fixes, ∀ e ∈ fix.edits, e.span.start ≤ e.span.stop)
    (apart : ∀ fix ∈ fixes, fix.edits.Pairwise Edit.Apart) :
    (Edit.sort ((accepted fixes).flatMap Fix.edits)).Pairwise
      fun a b => a.span.stop ≤ b.span.start := by
  refine Edit.pairwise_sort (fun e mem => ?_) (List.pairwise_flatMap.2 ⟨?_, ?_⟩)
  · obtain ⟨fix, memFix, inside⟩ := List.mem_flatMap.1 mem
    exact forward fix (mem_of_mem_accepted memFix) e inside
  · exact fun fix memFix => apart fix (mem_of_mem_accepted memFix)
  · refine List.Pairwise.imp_of_mem ?_ (pairwise_takeFrom List.Pairwise.nil)
    intro a b memA memB free x memX y memY
    have free := List.any_eq_false.1 free x memX
    rw [Bool.not_eq_true] at free
    exact Edit.apart_of_collides (forward a (mem_of_mem_accepted memA) x memX)
      (forward b (mem_of_mem_accepted memB) y memY)
      (Bool.not_eq_true _ ▸ List.any_eq_false.1 free y memY)

/-- The walk that making several fixes at once consists of. -/
theorem Fix.applyAll_eq {source : String} {out : List Char}
    (woven : Woven 0 source.toList (Edit.sort ((accepted fixes).flatMap Fix.edits)) out) :
    applyAll source fixes = .ok (String.ofList out, (accepted fixes).length) := by
  have walk := woven.weave_eq (List.nil_append _).symm rfl
  simp only [applyAll, walk]
  rfl

/-- When each fix is a single edit of some bytes, the edits that are made are given ones. -/
theorem Fix.pairwise_accepted_single
    (single : ∀ fix ∈ fixes, ∃ e : Edit, fix = .single e ∧ e.span.start < e.span.stop) :
    ((Edit.sort ((accepted fixes).flatMap Fix.edits)).Pairwise
        fun a b => a.span.stop ≤ b.span.start) ∧
      ∀ e ∈ Edit.sort ((accepted fixes).flatMap Fix.edits), Fix.single e ∈ fixes := by
  refine ⟨pairwise_accepted (fun fix mem e inside => ?_) (fun fix mem => ?_), fun e mem => ?_⟩
  · obtain ⟨e', rfl, some⟩ := single fix mem
    obtain rfl := List.mem_singleton.1 inside
    exact Nat.le_of_lt some
  · obtain ⟨e, rfl, _⟩ := single fix mem
    exact List.pairwise_singleton ..
  · obtain ⟨fix, memFix, inside⟩ := List.mem_flatMap.1 (Edit.mem_sort.1 mem)
    have given := mem_of_mem_accepted memFix
    obtain ⟨e', rfl, _⟩ := single fix given
    obtain rfl := List.mem_singleton.1 inside
    exact given

/-- Fixes of a single edit make as many edits as there are fixes. -/
theorem Fix.length_edits_of_single (single : ∀ fix ∈ fixes, ∃ e : Edit, fix = .single e) :
    (Edit.sort (fixes.flatMap Fix.edits)).length = fixes.length := by
  rw [Edit.sort, List.length_mergeSort, List.length_flatMap]
  have ones : fixes.map (fun fix => fix.edits.length) = fixes.map fun _ => 1 := by
    refine List.map_congr_left fun fix mem => ?_
    obtain ⟨e, rfl⟩ := single fix mem
    rfl
  rw [ones]
  simp

/-- What is taken stays taken. -/
theorem Fix.mem_takeFrom_of_mem {taken fixes : List Fix} (mem : fix ∈ taken) :
    fix ∈ takeFrom taken fixes := by
  induction fixes generalizing taken with
  | nil => exact mem
  | cons other fixes ih =>
    unfold takeFrom
    split
    · exact ih (List.mem_append_left _ mem)
    · exact ih mem

/-- Where there is a fix at all, the first one is taken. -/
theorem Fix.accepted_pos (some : fixes ≠ []) : 0 < (accepted fixes).length := by
  obtain ⟨fix, others, rfl⟩ := List.exists_cons_of_ne_nil some
  have first : fix ∈ takeFrom [fix] others := mem_takeFrom_of_mem (List.mem_singleton_self fix)
  exact List.length_pos_of_mem first

/-! ## Edits in parts of a text -/

/-- Edits in two parts of a text come in two rows. -/
theorem exists_split_edits {edits : List Edit} {P Q : Edit → Prop}
    (ordered : edits.Pairwise fun a b => a.span.stop ≤ b.span.start)
    (each : ∀ e ∈ edits, P e ∨ Q e)
    (apart : ∀ a b, P a → Q b → ¬ b.span.stop ≤ a.span.start) :
    ∃ first second, edits = first ++ second ∧ (∀ e ∈ first, P e) ∧ ∀ e ∈ second, Q e := by
  induction edits with
  | nil => exact ⟨[], [], rfl, by simp, by simp⟩
  | cons e edits ih =>
    rw [List.pairwise_cons] at ordered
    rw [List.forall_mem_cons] at each
    obtain ⟨first, second, rfl, inFirst, inSecond⟩ := ih ordered.2 each.2
    rcases each.1 with left | right
    · exact ⟨e :: first, second, rfl, List.forall_mem_cons.2 ⟨left, inFirst⟩, inSecond⟩
    · cases first with
      | nil => exact ⟨[], e :: second, rfl, by simp, List.forall_mem_cons.2 ⟨right, inSecond⟩⟩
      | cons a first =>
        have before := ordered.1 a (by simp)
        exact absurd before (apart a e (inFirst a (by simp)) right)

/-- An edit that spans all the others is alone. -/
theorem eq_singleton_of_spans {edits : List Edit} {e : Edit}
    (ordered : edits.Pairwise fun a b => a.span.stop ≤ b.span.start) (mem : e ∈ edits)
    (inside : ∀ a ∈ edits, e.span.start ≤ a.span.start ∧ a.span.start < a.span.stop ∧
      a.span.stop ≤ e.span.stop) : edits = [e] := by
  obtain ⟨before, behind, rfl⟩ := List.append_of_mem mem
  have ordered := List.pairwise_append.1 ordered
  obtain rfl : before = [] := by
    refine List.eq_nil_iff_forall_not_mem.2 fun a here => ?_
    have := ordered.2.2 a here e (by simp)
    have := inside a (by simp [here])
    omega
  obtain rfl : behind = [] := by
    refine List.eq_nil_iff_forall_not_mem.2 fun a here => ?_
    have := (List.pairwise_cons.1 ordered.2.1).1 a here
    have := inside a (by simp [here])
    omega
  rfl

end TidyScript
