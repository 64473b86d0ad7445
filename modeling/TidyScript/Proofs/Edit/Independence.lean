import TidyScript.Proofs.Edit.Greedy
import TidyScript.Proofs.List.Sorting

/-!
# Fixes that do not clash are independent

Fixes that do not clash with one another are all made, and it does not matter in which order they
are given. It does not matter either whether two of them are made at once or one after the other,
provided the second is moved along with the text: each of its offsets by what the edits of the
first that lie before it have added or taken away.

The first part is about sorting, which keeps the given order of edits with the same span only; two
fixes with an edit of the same span clash. The second part follows the walk that makes all edits
at once, and divides it into a walk that makes those of the first fix and one that makes those of
the second in the text that the first walk gives.
-/

namespace TidyScript

open Text (byteLength)

variable {source : String} {fixes fixes' : List Fix}

/-! ## The order of the fixes -/

theorem Span.clashes_self {a : Span} (forward : a.start ≤ a.stop) : a.Clashes a := by
  rcases Nat.lt_or_eq_of_le forward with some | empty
  · exact .inl ⟨a.start, ⟨le_rfl, some⟩, le_rfl, some⟩
  · exact .inr (.inl ⟨empty, le_rfl, forward⟩)

theorem Edit.span_eq_of_le {a b : Edit} (first : a.le b = true) (second : b.le a = true) :
    a.span = b.span := by
  obtain ⟨⟨start, stop⟩, _⟩ := a
  obtain ⟨⟨start', stop'⟩, _⟩ := b
  simp only [le, Span.le, Bool.or_eq_true, Bool.and_eq_true, decide_eq_true_eq, beq_iff_eq] at *
  rw [Span.mk.injEq]
  omega

namespace Fix

/-- No fix clashes with one behind it. -/
def Independent (fixes : List Fix) : Prop :=
  fixes.Pairwise fun a b => ¬ a.Clashes b

theorem Independent.perm (independent : Independent fixes) (perm : fixes.Perm fixes') :
    Independent fixes' :=
  (perm.pairwise_iff fun {_ _} free clash => free clash.symm).1 independent

theorem takeFrom_eq_append {taken : List Fix}
    (free : (taken ++ fixes).Pairwise fun a b => a.collides b = false) :
    takeFrom taken fixes = taken ++ fixes := by
  induction fixes generalizing taken with
  | nil => rw [takeFrom, List.append_nil]
  | cons fix fixes ih =>
    have quiet : (taken.all fun earlier => !earlier.collides fix) = true := by
      rw [List.all_eq_true]
      intro earlier mem
      rw [(List.pairwise_append.1 free).2.2 earlier mem fix (List.mem_cons_self ..)]
      rfl
    rw [takeFrom, if_pos quiet, ih (by rwa [List.append_assoc]), List.append_assoc]
    rfl

/-- Independent fixes are all taken. -/
theorem Independent.accepted_eq (independent : Independent fixes) (forward : Forward fixes) :
    accepted fixes = fixes := by
  refine takeFrom_eq_append (List.Pairwise.imp_of_mem ?_ independent)
  intro a b memA memB free
  rw [Bool.eq_false_iff]
  exact fun collides => free ((collides_iff (forward a memA) (forward b memB)).1 collides)

/-- Of two fixes that do not clash, at most one has edits of a given span. -/
theorem filter_eq_nil_or {a b : Fix} (free : ¬ a.Clashes b)
    (forward : ∀ edit ∈ a.edits, edit.span.start ≤ edit.span.stop) (e : Edit) :
    a.edits.filter (fun x => e.le x && x.le e) = [] ∨
      b.edits.filter (fun x => e.le x && x.le e) = [] := by
  apply Classical.byContradiction
  intro both
  simp only [not_or, List.filter_eq_nil_iff, not_forall, not_not, Bool.and_eq_true] at both
  obtain ⟨⟨x, memX, before, behind⟩, y, memY, before', behind'⟩ := both
  have same : x.span = y.span :=
    Edit.span_eq_of_le (Edit.le_trans x e y behind before') (Edit.le_trans y e x behind' before)
  exact free ⟨x, memX, y, memY, same ▸ Span.clashes_self (forward x memX)⟩

/-- **The edits of independent fixes are sorted into one list, in whatever order the fixes are
given.** -/
theorem Independent.sort_eq (independent : Independent fixes) (forward : Forward fixes)
    (perm : fixes.Perm fixes') :
    Edit.sort (fixes.flatMap Fix.edits) = Edit.sort (fixes'.flatMap Fix.edits) := by
  refine mergeSort_eq_of_filter_eq Edit.le_trans Edit.le_total fun e => ?_
  -- The edits of one span come from one fix, and keep their order inside it.
  induction perm with
  | nil => rfl
  | cons fix perm ih =>
    simp only [List.flatMap_cons, List.filter_append]
    rw [ih (List.pairwise_cons.1 independent).2 (List.forall_mem_cons.1 forward).2]
  | swap a b fixes =>
    simp only [List.flatMap_cons, List.filter_append]
    have free := (List.pairwise_cons.1 independent).1 a (List.mem_cons_self ..)
    rcases filter_eq_nil_or free (forward b (List.mem_cons_self ..)) e with none | none
    · rw [none, List.nil_append, List.nil_append]
    · rw [none, List.nil_append, List.nil_append]
  | trans perm perm' ih ih' =>
    rw [ih independent forward]
    exact ih' (independent.perm perm) fun fix mem => forward fix (perm.mem_iff.2 mem)

end Fix

/-! ## Moving edits -/

namespace Edit

/-- How many bytes longer the text gets by the edit. -/
def growth (edit : Edit) : Int :=
  byteLength edit.replacement.toList - (edit.span.stop - edit.span.start)

/-- How many bytes longer the text before an offset gets by the edits that lie before it. -/
def growthBefore (edits : List Edit) (offset : Nat) : Int :=
  (edits.filter fun edit => edit.span.stop ≤ offset).foldr (fun edit total => edit.growth + total) 0

/-- The edit with each of its offsets moved by as much as is said for it. -/
def move (far : Nat → Int) (edit : Edit) : Edit :=
  ⟨⟨(edit.span.start + far edit.span.start).toNat, (edit.span.stop + far edit.span.stop).toNat⟩,
    edit.replacement⟩

end Edit

namespace Fix

/-- The fix for the text in which another fix has been made. -/
def after (fix done : Fix) : Fix :=
  ⟨fix.edits.map (Edit.move (Edit.growthBefore done.edits))⟩

end Fix

namespace Edit

variable (isFirst : Edit → Bool)

/-- The edits that are not made first, moved by the growth of the ones before them that are. -/
def moveRest (grown : Int) : List Edit → List Edit
  | [] => []
  | edit :: edits =>
    if isFirst edit then moveRest (grown + edit.growth) edits
    else edit.move (fun _ => grown) :: moveRest grown edits

/-- In the order of the spans, the edits before an offset are those passed already. -/
theorem moveRest_eq {edits : List Edit} (grown : Int)
    (forward : ∀ e ∈ edits, e.span.start ≤ e.span.stop)
    (ordered : edits.Pairwise fun a b => a.span.stop ≤ b.span.start)
    (strict : edits.Pairwise fun a b =>
      isFirst a = false → isFirst b = true → a.span.stop < b.span.stop) :
    moveRest isFirst grown edits =
      (edits.filter fun e => !isFirst e).map
        (move fun offset => grown + growthBefore (edits.filter isFirst) offset) := by
  induction edits generalizing grown with
  | nil => rfl
  | cons edit edits ih =>
    rw [List.forall_mem_cons] at forward
    rw [List.pairwise_cons] at ordered strict
    have rest := fun grown => ih grown forward.2 ordered.2 strict.2
    cases first : isFirst edit with
    | true =>
      simp only [moveRest, List.filter_cons, first, rest, Bool.not_true, reduceIte,
        Bool.false_eq_true]
      refine List.map_congr_left fun later mem => ?_
      have mem := (List.mem_filter.1 mem).1
      have behind := ordered.1 later mem
      have counts : ∀ offset, edit.span.stop ≤ offset →
          growthBefore (edit :: edits.filter isFirst) offset =
            edit.growth + growthBefore (edits.filter isFirst) offset := by
        intro offset before
        simp [growthBefore, before]
      simp only [move, counts _ behind, counts _ (behind.trans (forward.2 later mem)), Int.add_assoc]
    | false =>
      simp only [moveRest, List.filter_cons, first, rest, Bool.not_false, reduceIte,
        Bool.false_eq_true, List.map_cons]
      have none : ∀ offset, offset ≤ edit.span.stop →
          growthBefore (edits.filter isFirst) offset = 0 := by
        intro offset before
        have empty : (edits.filter isFirst).filter (fun e => e.span.stop ≤ offset) = [] := by
          rw [List.filter_eq_nil_iff]
          intro later mem
          obtain ⟨mem, isFirst⟩ := List.mem_filter.1 mem
          have beyond := strict.1 later mem first isFirst
          simpa using Nat.lt_of_le_of_lt before beyond
        rw [growthBefore, empty]
        rfl
      simp only [move, none _ forward.1, none _ le_rfl, Int.add_zero]

end Edit

/-! ## Dividing a walk -/

namespace Woven

variable {offset : Nat} {cs out : List Char} {edits : List Edit}

/-- A walk makes edits that run forward and lie one behind the other. -/
theorem ordered (woven : Woven offset cs edits out) :
    (∀ e ∈ edits, offset ≤ e.span.start ∧ e.span.start ≤ e.span.stop) ∧
      edits.Pairwise fun a b => a.span.stop ≤ b.span.start := by
  induction woven with
  | done => exact ⟨nofun, .nil⟩
  | @edit offset kept old new rest out edits more ih =>
    refine ⟨List.forall_mem_cons.2 ⟨⟨by simp, by simp⟩, fun e mem => ?_⟩,
      List.pairwise_cons.2 ⟨fun e mem => (ih.1 e mem).1, ih.2⟩⟩
    have := ih.1 e mem
    omega

theorem sort_eq (woven : Woven offset cs edits out) : Edit.sort edits = edits :=
  Edit.sort_eq (fun e mem => (woven.ordered.1 e mem).2) woven.ordered.2

/-- **A walk divides into one that makes some of its edits and one that makes the others**, moved
along, in the text that the first gives. -/
theorem exists_first (isFirst : Edit → Bool) (woven : Woven offset cs edits out) {offset' : Nat}
    {grown : Int} (place : (offset : Int) + grown = offset') :
    ∃ middle, Woven offset cs (edits.filter isFirst) middle ∧
      Woven offset' middle (Edit.moveRest isFirst grown edits) out := by
  induction woven generalizing offset' grown with
  | done offset cs => exact ⟨cs, .done offset cs, .done offset' cs⟩
  | @edit offset kept old new rest out edits more ih =>
    generalize isEdit : (⟨⟨_, _⟩, String.ofList new⟩ : Edit) = edit
    cases first : isFirst edit with
    | true =>
      have grows : edit.growth = byteLength new - byteLength old := by
        rw [← isEdit]
        simp only [Edit.growth, String.toList_ofList]
        omega
      obtain ⟨middle, walk, walk'⟩ := @ih (offset' + byteLength (kept ++ new)) (grown + edit.growth)
        (by rw [grows, Text.byteLength_append]; omega)
      refine ⟨kept ++ (new ++ middle), ?_, ?_⟩
      · rw [List.filter_cons_of_pos first, ← isEdit]
        exact walk.edit
      · rw [Edit.moveRest, if_pos first]
        simpa using walk'.behind (kept ++ new)
    | false =>
      obtain ⟨middle, walk, walk'⟩ := @ih (offset' + byteLength kept + byteLength old) grown
        (by omega)
      refine ⟨kept ++ (old ++ middle), ?_, ?_⟩
      · rw [List.filter_cons_of_neg (by simp [first])]
        have whole := @behind offset rest _ _ (kept ++ old)
          (by simpa [Nat.add_assoc] using walk)
        simpa using whole
      · rw [Edit.moveRest, if_neg (by simp [first])]
        have moved : edit.move (fun _ => grown) = ⟨⟨offset' + byteLength kept,
            offset' + byteLength kept + byteLength old⟩, String.ofList new⟩ := by
          rw [← isEdit, Edit.move]
          simp only [Edit.mk.injEq, Span.mk.injEq, and_true]
          omega
        rw [moved]
        exact walk'.edit

end Woven

namespace Fix

theorem applyAll_singleton {fix : Fix} {out : List Char}
    (woven : Woven 0 source.toList fix.edits out) :
    applyAll source [fix] = .ok (String.ofList out, 1) := by
  have sorted : Edit.sort ((accepted [fix]).flatMap Fix.edits) = fix.edits := by
    show Edit.sort (fix.edits ++ []) = fix.edits
    rw [List.append_nil, woven.sort_eq]
  exact applyAll_eq (sorted.symm ▸ woven)

theorem apply_eq {fix : Fix} {out : List Char} (woven : Woven 0 source.toList fix.edits out) :
    fix.apply source = .ok (String.ofList out) := by
  rw [apply, applyAll_singleton woven]
  rfl

/-- Of two edits that do not clash and lie one behind the other, the second ends behind the first: it
does not insert where the first ends. -/
theorem stop_lt_stop {a b : Edit} (behind : a.span.stop ≤ b.span.start)
    (forwardA : a.span.start ≤ a.span.stop) (forwardB : b.span.start ≤ b.span.stop)
    (free : ¬ a.span.Clashes b.span) : a.span.stop < b.span.stop := by
  rcases Nat.lt_or_ge a.span.stop b.span.stop with less | touching
  · exact less
  · exact absurd (.inr (.inr ⟨by omega, by omega, by omega⟩)) free

theorem Fits.sort_eq {fix : Fix} (fits : fix.Fits source) : Edit.sort fix.edits = fix.edits :=
  Edit.sort_eq (fun e mem => (fits.edits e mem).forward) fits.ordered

/-- The edits of a fix can be told from those of one that does not clash with it. -/
theorem filter_sort {f g : Fix} (fitsF : f.Fits source) (fitsG : g.Fits source)
    (free : ¬ f.Clashes g) :
    (Edit.sort (f.edits ++ g.edits)).filter (fun e => e ∈ f.edits) = f.edits ∧
      (Edit.sort (f.edits ++ g.edits)).filter (fun e => !decide (e ∈ f.edits)) = g.edits := by
  have apart : ∀ e ∈ g.edits, e ∉ f.edits := fun e memG memF =>
    free ⟨e, memF, e, memG, Span.clashes_self (fitsF.edits e memF).forward⟩
  have ownF : f.edits.filter (fun e => e ∈ f.edits) = f.edits :=
    List.filter_eq_self.2 fun e mem => decide_eq_true mem
  have ownG : g.edits.filter (fun e => !decide (e ∈ f.edits)) = g.edits :=
    List.filter_eq_self.2 fun e mem => by simp [apart e mem]
  have noneF : f.edits.filter (fun e => !decide (e ∈ f.edits)) = [] :=
    List.filter_eq_nil_iff.2 fun e mem => by simp [mem]
  have noneG : g.edits.filter (fun e => decide (e ∈ f.edits)) = [] :=
    List.filter_eq_nil_iff.2 fun e mem => by simp [apart e mem]
  unfold Edit.sort
  rw [filter_mergeSort Edit.le_trans Edit.le_total, filter_mergeSort Edit.le_trans Edit.le_total,
    List.filter_append, List.filter_append, ownF, ownG, noneF, noneG, List.append_nil,
    List.nil_append]
  exact ⟨fitsF.sort_eq, fitsG.sort_eq⟩

/-- A walk that makes two fixes which do not clash divides into one for each of them. -/
theorem exists_woven_after {f g : Fix} {out : List Char} (fitsF : f.Fits source)
    (fitsG : g.Fits source) (free : ¬ f.Clashes g)
    (woven : Woven 0 source.toList (Edit.sort (f.edits ++ g.edits)) out) :
    ∃ middle, Woven 0 source.toList f.edits middle ∧ Woven 0 middle (g.after f).edits out := by
  obtain ⟨ofF, ofG⟩ := filter_sort fitsF fitsG free
  obtain ⟨bounds, ordered⟩ := woven.ordered
  have strict : (Edit.sort (f.edits ++ g.edits)).Pairwise fun a b =>
      decide (a ∈ f.edits) = false → decide (b ∈ f.edits) = true → a.span.stop < b.span.stop := by
    refine List.Pairwise.imp_of_mem ?_ ordered
    intro a b memA memB behind notFirst isFirst
    have ofG : a ∈ g.edits :=
      (List.mem_append.1 (Edit.mem_sort.1 memA)).resolve_left (of_decide_eq_false notFirst)
    refine stop_lt_stop behind (bounds a memA).2 (bounds b memB).2 fun clash => ?_
    exact free ⟨b, of_decide_eq_true isFirst, a, ofG, clash.symm⟩
  obtain ⟨middle, first, second⟩ := woven.exists_first (fun e => e ∈ f.edits)
    (show ((0 : Nat) : Int) + 0 = (0 : Nat) from rfl)
  rw [Edit.moveRest_eq _ 0 (fun e mem => (bounds e mem).2) ordered strict, ofF, ofG] at second
  simp only [Int.zero_add] at second
  exact ⟨middle, ofF ▸ first, second⟩

/-- **Two fixes that do not clash may be made one after the other.** -/
theorem exists_after {f g : Fix} (fitsF : f.Fits source) (fitsG : g.Fits source)
    (free : ¬ f.Clashes g) :
    ∃ middle output, applyAll source [f] = .ok (middle, 1) ∧
      applyAll middle [g.after f] = .ok (output, 1) ∧
      applyAll source [f, g] = .ok (output, 2) := by
  have fits : ∀ fix ∈ [f, g], fix.Fits source := by simp [fitsF, fitsG]
  have independent : Independent [f, g] := by simp [Independent, free]
  have all := independent.accepted_eq (forward_of_fits fits)
  obtain ⟨out, woven⟩ := exists_woven_accepted fits
  have whole := applyAll_eq woven
  have both : [f, g].flatMap Fix.edits = f.edits ++ g.edits := by simp
  rw [all, both] at woven
  rw [all] at whole
  obtain ⟨middle, first, second⟩ := exists_woven_after fitsF fitsG free woven
  refine ⟨String.ofList middle, String.ofList out, applyAll_singleton first, ?_, whole⟩
  exact applyAll_singleton (by rwa [String.toList_ofList])

/-- **Independent fixes commute.** All of them are made, with one output whatever their order; and
of two, the second may be made after the first, moved along with the text. -/
theorem applyAll_independent (made : ∀ fix ∈ fixes, fix.IsMade)
    (fits : ∀ fix ∈ fixes, ∀ edit ∈ fix.edits, edit.Fits source)
    (independent : Independent fixes) :
    (∃ output, ∀ fixes', fixes.Perm fixes' →
      applyAll source fixes' = .ok (output, fixes.length)) ∧
    ∀ f ∈ fixes, ∀ g ∈ fixes, ¬ f.Clashes g →
      ∃ middle output, applyAll source [f] = .ok (middle, 1) ∧
        applyAll middle [g.after f] = .ok (output, 1) ∧
        applyAll source [f, g] = .ok (output, 2) := by
  have fits : ∀ fix ∈ fixes, fix.Fits source := fun fix mem => (made fix mem).fits (fits fix mem)
  have forward := forward_of_fits fits
  refine ⟨?_, fun f memF g memG free => exists_after (fits f memF) (fits g memG) free⟩
  obtain ⟨out, woven⟩ := exists_woven_accepted fits
  rw [independent.accepted_eq forward] at woven
  refine ⟨String.ofList out, fun fixes' perm => ?_⟩
  have all' := (independent.perm perm).accepted_eq
    fun fix mem => forward fix (perm.mem_iff.2 mem)
  rw [independent.sort_eq forward perm, ← all'] at woven
  rw [applyAll_eq woven, all', perm.length_eq]

/-- The fixes of `wideFixes` that are taken, in the opposite order, and two of them one after the
other. -/
theorem applyAll_independent_wide :
    (∃ output, applyAll "né𝒳b" (wideFixes.eraseIdx 2) = .ok (output, 3) ∧
      applyAll "né𝒳b" (wideFixes.eraseIdx 2).reverse = .ok (output, 3)) ∧
    ∃ middle output,
      applyAll "né𝒳b" [⟨[⟨⟨0, 0⟩, ">"⟩, ⟨⟨3, 7⟩, "x"⟩]⟩] = .ok (middle, 1) ∧
        applyAll middle [single ⟨⟨6, 6⟩, "!"⟩] = .ok (output, 1) ∧
        applyAll "né𝒳b" [⟨[⟨⟨0, 0⟩, ">"⟩, ⟨⟨3, 7⟩, "x"⟩]⟩, single ⟨⟨8, 8⟩, "!"⟩] =
          .ok (output, 2) := by
  have given : ∀ fix ∈ wideFixes.eraseIdx 2, fix ∈ wideFixes := fun fix =>
    List.mem_of_mem_eraseIdx
  obtain ⟨⟨output, same⟩, after⟩ := @applyAll_independent "né𝒳b" (wideFixes.eraseIdx 2)
    (fun fix mem => isMade_wideFixes fix (given fix mem))
    (fun fix mem => fits_wideFixes fix (given fix mem)) (by unfold Independent; decide)
  refine ⟨⟨output, same _ (.refl _), same _ (List.reverse_perm _).symm⟩, ?_⟩
  exact after ⟨[⟨⟨0, 0⟩, ">"⟩, ⟨⟨3, 7⟩, "x"⟩]⟩ (by decide) (single ⟨⟨8, 8⟩, "!"⟩) (by decide)
    (by decide)

end Fix

end TidyScript
