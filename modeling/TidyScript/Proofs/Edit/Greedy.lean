import Mathlib.Data.List.Induction
import Mathlib.Data.Prod.Lex
import TidyScript.Proofs.Edit.Fits

/-!
# Fixes are taken greedily

Which of several fixes are made is told by their places in the list: a fix is made exactly when it
clashes with none of the fixes that are made and stand before it. This determines the places, from
the first to the last. The edits of these fixes, in the order of their spans, lie one behind the
other, and the new text is the old one with each of them made and everything between them kept.

Clashing is said here by what the edits do to the text: two of them replace the same byte, or one
of them inserts at a place that the other touches.
-/

namespace TidyScript

open Text (byteLength Boundary)

/-! ## Clashing -/

namespace Span

/-- There is a byte in both spans. -/
def SharesByte (a b : Span) : Prop :=
  ∃ byte, (a.start ≤ byte ∧ byte < a.stop) ∧ b.start ≤ byte ∧ byte < b.stop

/-- The first span is empty and lies inside the second or at one of its ends. -/
def InsertsAt (a b : Span) : Prop :=
  a.start = a.stop ∧ b.start ≤ a.start ∧ a.start ≤ b.stop

/-- The spans share a byte, or one of them is a place that the other touches. -/
def Clashes (a b : Span) : Prop :=
  a.SharesByte b ∨ a.InsertsAt b ∨ b.InsertsAt a

theorem Clashes.symm {a b : Span} (clash : a.Clashes b) : b.Clashes a := by
  rcases clash with ⟨byte, inA, inB⟩ | insert | insert
  · exact .inl ⟨byte, inB, inA⟩
  · exact .inr (.inr insert)
  · exact .inr (.inl insert)

theorem sharesByte_iff {a b : Span} :
    a.SharesByte b ↔ max a.start b.start < min a.stop b.stop := by
  constructor
  · rintro ⟨byte, inA, inB⟩
    omega
  · intro room
    exact ⟨max a.start b.start, by omega, by omega⟩

instance (a b : Span) : Decidable (a.Clashes b) :=
  decidable_of_iff (max a.start b.start < min a.stop b.stop ∨
      (a.start = a.stop ∧ b.start ≤ a.start ∧ a.start ≤ b.stop) ∨
      (b.start = b.stop ∧ a.start ≤ b.start ∧ b.start ≤ a.stop))
    (or_congr_left sharesByte_iff.symm)

/-- Spans collide when they clash. -/
theorem collides_iff {a b : Span} (forwardA : a.start ≤ a.stop) (forwardB : b.start ≤ b.stop) :
    a.collides b = true ↔ a.Clashes b := by
  unfold collides Clashes InsertsAt
  rw [sharesByte_iff]
  split
  · next insertion =>
    simp only [isEmpty, Bool.or_eq_true, beq_iff_eq] at insertion
    rw [decide_eq_true_eq]
    omega
  · next neither =>
    simp only [isEmpty, Bool.or_eq_true, beq_iff_eq, not_or] at neither
    simp only [Bool.and_eq_true, decide_eq_true_eq]
    omega

end Span

namespace Fix

/-- The edits of the fixes have spans that run forward. -/
def Forward (fixes : List Fix) : Prop :=
  ∀ fix ∈ fixes, ∀ edit ∈ fix.edits, edit.span.start ≤ edit.span.stop

theorem forward_of_fits {fixes : List Fix} {source : String}
    (fits : ∀ fix ∈ fixes, fix.Fits source) : Forward fixes :=
  fun fix mem edit inside => ((fits fix mem).edits edit inside).forward

/-- An edit of one fix clashes with an edit of the other. -/
def Clashes (a b : Fix) : Prop :=
  ∃ x ∈ a.edits, ∃ y ∈ b.edits, x.span.Clashes y.span

instance (a b : Fix) : Decidable (a.Clashes b) :=
  inferInstanceAs (Decidable (∃ x ∈ a.edits, ∃ y ∈ b.edits, x.span.Clashes y.span))

theorem Clashes.symm {a b : Fix} (clash : a.Clashes b) : b.Clashes a := by
  obtain ⟨x, memX, y, memY, clash⟩ := clash
  exact ⟨y, memY, x, memX, clash.symm⟩

theorem collides_iff {a b : Fix} (forwardA : ∀ e ∈ a.edits, e.span.start ≤ e.span.stop)
    (forwardB : ∀ e ∈ b.edits, e.span.start ≤ e.span.stop) :
    a.collides b = true ↔ a.Clashes b := by
  simp only [collides, List.any_eq_true]
  constructor
  · rintro ⟨x, memX, y, memY, collides⟩
    exact ⟨x, memX, y, memY, (Span.collides_iff (forwardA x memX) (forwardB y memY)).1 collides⟩
  · rintro ⟨x, memX, y, memY, clash⟩
    exact ⟨x, memX, y, memY, (Span.collides_iff (forwardA x memX) (forwardB y memY)).2 clash⟩

end Fix

namespace Edit

theorem le_iff {a b : Edit} :
    a.le b = true ↔ toLex (a.span.start, a.span.stop) ≤ toLex (b.span.start, b.span.stop) := by
  simp [le, Span.le, Prod.Lex.toLex_le_toLex]

/-- Edits that are told apart by their spans have only one order. -/
theorem sort_eq_of_perm {edits sorted : List Edit} (perm : edits.Perm sorted)
    (ordered : sorted.Pairwise fun a b => a.le b = true)
    (distinct : ∀ a ∈ sorted, ∀ b ∈ sorted, a.le b = true → b.le a = true → a = b) :
    sort edits = sorted := by
  have sorts := List.mergeSort_perm edits le
  refine List.Perm.eq_of_pairwise (fun a b memA memB => ?_)
    (List.pairwise_mergeSort le_trans le_total _) ordered (sorts.trans perm)
  exact distinct a ((sorts.trans perm).mem_iff.1 memA) b memB

/-- An edit of the text between two numbers of characters fits. -/
theorem Fits.ofTake {source : String} {edit : Edit} (n m : Nat)
    (start : edit.span.start = byteLength (source.toList.take n))
    (stop : edit.span.stop = byteLength (source.toList.take m))
    (forward : edit.span.start ≤ edit.span.stop) : edit.Fits source where
  start := ⟨_, source.toList.drop n, (List.take_append_drop ..).symm, start.symm⟩
  stop := ⟨_, source.toList.drop m, (List.take_append_drop ..).symm, stop.symm⟩
  forward := forward

end Edit

namespace Fix

/-! ## Fixes as they are made -/

/-- The fix comes from `ofEdits` or from `single`. -/
def IsMade (fix : Fix) : Prop :=
  (∃ edits, ofEdits edits = .ok fix) ∨ ∃ edit, fix = single edit

/-- Where no two neighbours overlap, no two edits at all do. -/
theorem pairwise_of_firstOverlap? {edits : List Edit} (free : Edit.firstOverlap? edits = none)
    (forward : ∀ e ∈ edits, e.span.start ≤ e.span.stop) :
    edits.Pairwise fun a b => a.span.stop ≤ b.span.start := by
  fun_induction Edit.firstOverlap? edits with
  | case1 => exact .nil
  | case2 => exact List.pairwise_singleton ..
  | case3 a b rest touches ih =>
    rw [List.forall_mem_cons] at forward
    have ordered := ih free forward.2
    refine List.pairwise_cons.2 ⟨List.forall_mem_cons.2 ⟨touches, ?_⟩, ordered⟩
    intro c mem
    calc a.span.stop ≤ b.span.start := touches
      _ ≤ b.span.stop := forward.2 b (List.mem_cons_self ..)
      _ ≤ c.span.start := (List.pairwise_cons.1 ordered).1 c mem
  | case4 => cases free

theorem IsMade.fits {fix : Fix} {source : String} (made : fix.IsMade)
    (edits : ∀ edit ∈ fix.edits, edit.Fits source) : fix.Fits source := by
  refine ⟨edits, ?_⟩
  rcases made with ⟨given, made⟩ | ⟨edit, rfl⟩
  · simp only [ofEdits] at made
    split at made
    · cases made
    · next free =>
      cases made
      exact pairwise_of_firstOverlap? free fun e mem => (edits e mem).forward
  · exact List.pairwise_singleton ..

/-! ## The fixes that are taken -/

/-- The places, in ascending order, of the fixes that clash with none that has such a place before
theirs. -/
structure Greedy (fixes : List Fix) (places : List Nat) : Prop where
  ascending : places.Pairwise (· < ·)
  inside : ∀ place ∈ places, place < fixes.length
  mem_iff : ∀ place fix, fixes[place]? = some fix →
    (place ∈ places ↔ ∀ earlier ∈ places, earlier < place →
      ∀ other, fixes[earlier]? = some other → ¬ other.Clashes fix)

/-- The fixes at the given places. -/
def atPlaces (fixes : List Fix) (places : List Nat) : List Fix :=
  places.filterMap (fixes[·]?)

variable {fixes : List Fix} {places : List Nat} {fix : Fix}

theorem mem_atPlaces : fix ∈ atPlaces fixes places ↔ ∃ place ∈ places, fixes[place]? = some fix :=
  List.mem_filterMap

theorem length_atPlaces (inside : ∀ place ∈ places, place < fixes.length) :
    (atPlaces fixes places).length = places.length := by
  induction places with
  | nil => rfl
  | cons place places ih =>
    rw [List.forall_mem_cons] at inside
    have here := List.getElem?_eq_getElem inside.1
    simp only [atPlaces] at ih ⊢
    rw [List.filterMap_cons_some here, List.length_cons, ih inside.2, List.length_cons]

/-- Places inside a list mean the same when the list is continued. -/
theorem atPlaces_append (inside : ∀ place ∈ places, place < fixes.length) (more : List Fix) :
    atPlaces (fixes ++ more) places = atPlaces fixes places := by
  refine List.filterMap_congr fun place mem => ?_
  exact List.getElem?_append_left (inside place mem)

theorem takeFrom_append (taken fixes more : List Fix) :
    takeFrom taken (fixes ++ more) = takeFrom (takeFrom taken fixes) more := by
  induction fixes generalizing taken with
  | nil => rfl
  | cons fix fixes ih =>
    simp only [List.cons_append, takeFrom]
    split
    · exact ih _
    · exact ih _

/-- The last fix is taken when it clashes with none that is taken without it. -/
theorem accepted_concat_of_free (free : ∀ other ∈ accepted fixes, other.collides fix = false) :
    accepted (fixes ++ [fix]) = accepted fixes ++ [fix] := by
  simp only [accepted, takeFrom_append, takeFrom]
  rw [if_pos]
  simpa [accepted] using free

theorem accepted_concat_of_collides {fix other : Fix} (mem : other ∈ accepted fixes)
    (collides : other.collides fix = true) : accepted (fixes ++ [fix]) = accepted fixes := by
  simp only [accepted, takeFrom_append, takeFrom]
  rw [if_neg]
  simp only [List.all_eq_true, Bool.not_eq_true', not_forall, Bool.not_eq_false]
  exact ⟨other, mem, collides⟩

/-- What one more fix at the end changes: its place is added when it clashes with no fix taken. -/
theorem Greedy.concat {places more : List Nat} (greedy : Greedy fixes places)
    (each : more = [] ∨ more = [fixes.length])
    (last : fixes.length ∈ more ↔ ∀ other ∈ atPlaces fixes places, ¬ other.Clashes fix) :
    Greedy (fixes ++ [fix]) (places ++ more) where
  ascending := by
    refine List.pairwise_append.2 ⟨greedy.ascending, ?_, ?_⟩
    · rcases each with rfl | rfl
      · exact .nil
      · exact List.pairwise_singleton ..
    · intro place mem place' mem'
      have below := greedy.inside place mem
      grind
  inside := by
    intro place mem
    have below := greedy.inside place
    grind
  mem_iff := by
    have known : ∀ place < fixes.length, (place ∈ places ++ more ↔ place ∈ places) := by grind
    have own : fixes.length ∉ places := fun mem => Nat.lt_irrefl _ (greedy.inside _ mem)
    intro place taken found
    rcases Nat.lt_or_ge place fixes.length with inside | beyond
    · -- an earlier fix is judged by the places before its own, and these are as they were
      rw [List.getElem?_append_left inside] at found
      rw [known place inside, greedy.mem_iff place taken found]
      constructor
      · intro free earlier mem less other there
        have below := Nat.lt_trans less inside
        rw [List.getElem?_append_left below] at there
        exact free earlier ((known earlier below).1 mem) less other there
      · intro free earlier mem less other there
        have below := Nat.lt_trans less inside
        refine free earlier ((known earlier below).2 mem) less other ?_
        rwa [List.getElem?_append_left below]
    · have isLast : place = fixes.length ∧ fix = taken := by grind
      obtain ⟨rfl, rfl⟩ := isLast
      rw [List.mem_append, or_iff_right own, last]
      constructor
      · intro free earlier mem less other there
        rw [List.getElem?_append_left less] at there
        exact free other (mem_atPlaces.2 ⟨earlier, (known earlier less).1 mem, there⟩)
      · intro free other mem
        obtain ⟨earlier, mem, there⟩ := mem_atPlaces.1 mem
        have below := greedy.inside earlier mem
        refine free earlier (List.mem_append_left _ mem) below other ?_
        rwa [List.getElem?_append_left below]

/-- **The fixes that are taken are those at the greedy places.** -/
theorem exists_greedy (forward : Forward fixes) :
    ∃ places, Greedy fixes places ∧ accepted fixes = atPlaces fixes places := by
  induction fixes using List.reverseRecOn with
  | nil => exact ⟨[], ⟨.nil, by simp, by simp⟩, rfl⟩
  | append_singleton fixes fix ih =>
    obtain ⟨places, greedy, taken⟩ := ih fun other mem => forward other (List.mem_append_left _ mem)
    have decides : ∀ other ∈ accepted fixes, (other.collides fix = true ↔ other.Clashes fix) :=
      fun other mem => collides_iff
        (forward other (List.mem_append_left _ (mem_of_mem_accepted mem))) (forward fix (by simp))
    by_cases free : ∀ other ∈ accepted fixes, ¬ other.Clashes fix
    · refine ⟨places ++ [fixes.length], greedy.concat (.inr rfl) ?_, ?_⟩
      · exact iff_of_true (List.mem_singleton_self _) (taken ▸ free)
      · have quiet : ∀ other ∈ accepted fixes, other.collides fix = false := fun other mem =>
          Bool.eq_false_iff.2 fun collides => free other mem ((decides other mem).1 collides)
        rw [accepted_concat_of_free quiet, taken, ← atPlaces_append greedy.inside [fix]]
        simp [atPlaces]
    · refine ⟨places, List.append_nil places ▸ greedy.concat (.inl rfl) ?_, ?_⟩
      · exact iff_of_false (List.not_mem_nil) (taken ▸ free)
      · push Not at free
        obtain ⟨other, mem, clash⟩ := free
        rw [accepted_concat_of_collides mem ((decides other mem).2 clash), taken,
          atPlaces_append greedy.inside]

/-- The greedy places are determined by the fixes. -/
theorem Greedy.eq {places places' : List Nat} (greedy : Greedy fixes places)
    (greedy' : Greedy fixes places') : places = places' := by
  have same : ∀ place, place < fixes.length → (place ∈ places ↔ place ∈ places') := by
    intro place
    induction place using Nat.strongRecOn with
    | ind place ih =>
      intro inside
      have here := List.getElem?_eq_getElem inside
      rw [greedy.mem_iff place _ here, greedy'.mem_iff place _ here]
      constructor
      · intro free earlier mem less
        exact free earlier ((ih earlier less (greedy'.inside _ mem)).2 mem) less
      · intro free earlier mem less
        exact free earlier ((ih earlier less (greedy.inside _ mem)).1 mem) less
  refine greedy.ascending.eq_of_mem_iff greedy'.ascending fun place => ?_
  constructor
  · exact fun mem => (same place (greedy.inside place mem)).1 mem
  · exact fun mem => (same place (greedy'.inside place mem)).2 mem

/-- **Several fixes are made greedily, and each of their edits where it stands.** The count is that
of the greedy places; the edits at these places, in the order of their spans, lie one behind the
other; and what is not replaced by one of them is kept. -/
theorem applyAll_greedy {source : String} {fixes : List Fix} (made : ∀ fix ∈ fixes, fix.IsMade)
    (fits : ∀ fix ∈ fixes, ∀ edit ∈ fix.edits, edit.Fits source) :
    ∃ places output edits, Greedy fixes places ∧ (∀ other, Greedy fixes other → other = places) ∧
      applyAll source fixes = .ok (output, places.length) ∧
      edits = Edit.sort ((atPlaces fixes places).flatMap Fix.edits) ∧
      (edits.Pairwise fun a b =>
        toLex (a.span.start, a.span.stop) ≤ toLex (b.span.start, b.span.stop)) ∧
      (edits.Pairwise fun a b => a.span.stop ≤ b.span.start) ∧
      Woven 0 source.toList edits output.toList := by
  have fits : ∀ fix ∈ fixes, fix.Fits source := fun fix mem => (made fix mem).fits (fits fix mem)
  have forward := forward_of_fits fits
  obtain ⟨places, greedy, taken⟩ := exists_greedy forward
  obtain ⟨out, woven⟩ := exists_woven_accepted fits
  have ordered := pairwise_accepted forward fun fix mem => (fits fix mem).ordered.imp Or.inl
  have whole := applyAll_eq woven
  rw [taken] at woven ordered
  rw [taken, length_atPlaces greedy.inside] at whole
  refine ⟨places, _, _, greedy, fun other greedy' => greedy'.eq greedy, whole, rfl, ?_, ordered,
    by rwa [String.toList_ofList]⟩
  exact (List.pairwise_mergeSort Edit.le_trans Edit.le_total _).imp Edit.le_iff.1

/-- Four fixes of a text with wide characters. The third one inserts where the first replaces. -/
def wideFixes : List Fix :=
  [⟨[⟨⟨0, 0⟩, ">"⟩, ⟨⟨3, 7⟩, "x"⟩]⟩, single ⟨⟨1, 3⟩, "e"⟩, single ⟨⟨7, 7⟩, "?"⟩,
    single ⟨⟨8, 8⟩, "!"⟩]

theorem isMade_wideFixes : ∀ fix ∈ wideFixes, fix.IsMade := by
  simp only [wideFixes, List.forall_mem_cons, List.not_mem_nil, false_implies, implies_true,
    and_true]
  refine ⟨.inl ⟨[⟨⟨3, 7⟩, "x"⟩, ⟨⟨0, 0⟩, ">"⟩], ?_⟩, .inr ⟨_, rfl⟩, .inr ⟨_, rfl⟩, .inr ⟨_, rfl⟩⟩
  have sorted : Edit.sort [⟨⟨3, 7⟩, "x"⟩, ⟨⟨0, 0⟩, ">"⟩] = [⟨⟨0, 0⟩, ">"⟩, ⟨⟨3, 7⟩, "x"⟩] :=
    Edit.sort_eq_of_perm (by decide) (by decide) (by decide)
  rw [ofEdits, sorted]
  rfl

theorem fits_wideFixes : ∀ fix ∈ wideFixes, ∀ edit ∈ fix.edits, edit.Fits "né𝒳b" := by
  simp only [wideFixes, single, List.forall_mem_cons, List.not_mem_nil, false_implies,
    implies_true, and_true]
  exact ⟨⟨.ofTake 0 0 (by decide) (by decide) (by decide),
      .ofTake 2 3 (by decide) (by decide) (by decide)⟩,
    .ofTake 1 2 (by decide) (by decide) (by decide),
    .ofTake 3 3 (by decide) (by decide) (by decide),
    .ofTake 4 4 (by decide) (by decide) (by decide)⟩

theorem applyAll_greedy_wide :
    ∃ places, Greedy wideFixes places ∧ places.length = 3 ∧
      Woven 0 "né𝒳b".toList (Edit.sort ((atPlaces wideFixes places).flatMap Fix.edits))
        ">nexb!".toList := by
  obtain ⟨places, output, edits, greedy, _, done, rfl, _, _, woven⟩ :=
    applyAll_greedy isMade_wideFixes fits_wideFixes
  have sorted : Edit.sort ((accepted wideFixes).flatMap Fix.edits) =
      [⟨⟨0, 0⟩, ">"⟩, ⟨⟨1, 3⟩, "e"⟩, ⟨⟨3, 7⟩, "x"⟩, ⟨⟨8, 8⟩, "!"⟩] :=
    Edit.sort_eq_of_perm (by decide) (by decide) (by decide)
  have known : applyAll "né𝒳b" wideFixes = .ok (">nexb!", 3) := by
    rw [applyAll, sorted]
    rfl
  obtain ⟨rfl, count⟩ : output = ">nexb!" ∧ places.length = 3 := by
    simpa using done.symm.trans known
  exact ⟨places, greedy, count, woven⟩

end Fix

end TidyScript
