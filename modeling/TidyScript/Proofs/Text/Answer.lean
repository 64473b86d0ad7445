/-!
# Requests that are answered

Cutting and editing text may refuse. A request gives an answer with a property when it does not
refuse and its answer has the property. Requests are made one after the other and in lists, and
the lemmas here say that all of them together give an answer when each of them does.
-/

namespace TidyScript

variable {ε α β : Type} {x : Except ε α} {f : α → Except ε β} {a : α} {l : List α} {bs : List β}

theorem eq_ok_of_toOption (is : x.toOption = some a) : x = .ok a := by
  cases x with
  | ok b => exact congrArg Except.ok (Option.some.inj is)
  | error cause => cases is

theorem exists_ok_of_any {check : α → Bool} (checked : x.toOption.any check = true) :
    ∃ a, x = .ok a ∧ check a = true := by
  cases x with
  | ok a => exact ⟨a, rfl, checked⟩
  | error cause => cases checked

theorem exists_of_bind_eq_ok {b : β} (is : (x >>= f) = .ok b) :
    ∃ a, x = .ok a ∧ f a = .ok b := by
  cases x with
  | ok a => exact ⟨a, rfl, is⟩
  | error cause => cases is

/-- The request gives an answer that has the property. -/
def Gives (P : α → Prop) (x : Except ε α) : Prop :=
  ∃ a, x = .ok a ∧ P a

namespace Gives

variable {P : α → Prop} {Q : β → Prop}

theorem pure (holds : P a) : Gives P (Pure.pure a : Except ε α) :=
  ⟨a, rfl, holds⟩

theorem bind (first : Gives P x) (further : ∀ a, P a → Gives Q (f a)) : Gives Q (x >>= f) := by
  obtain ⟨a, rfl, holds⟩ := first
  exact further a holds

theorem imp {P' : α → Prop} (gives : Gives P x) (weaker : ∀ a, P a → P' a) :
    Gives P' x := by
  obtain ⟨a, is, holds⟩ := gives
  exact ⟨a, is, weaker a holds⟩

theorem holds (gives : Gives P x) (is : x = .ok a) : P a := by
  obtain ⟨_, same, holds⟩ := gives
  exact Except.ok.inj (same.symm.trans is) ▸ holds

theorem of_exists (answered : ∃ a, x = .ok a) : Gives (fun _ => True) x := by
  obtain ⟨a, is⟩ := answered
  exact ⟨a, is, trivial⟩

theorem ite {c : Prop} [Decidable c] {y : Except ε α} (yes : c → Gives P x)
    (no : ¬c → Gives P y) : Gives P (if c then x else y) := by
  split
  · next holds => exact yes holds
  · next fails => exact no fails

/-- Requests for every member of a list. -/
theorem mapM (each : ∀ a ∈ l, Gives Q (f a)) :
    Gives (fun bs => ∀ b ∈ bs, Q b) (l.mapM f) := by
  induction l with
  | nil => exact ⟨[], rfl, by simp⟩
  | cons a l ih =>
    rw [List.forall_mem_cons] at each
    rw [List.mapM_cons]
    exact each.1.bind fun b holds => (ih each.2).bind fun bs others =>
      .pure (List.forall_mem_cons.2 ⟨holds, others⟩)

/-- Requests for every member of a list, of which some have no answer to keep. -/
theorem filterMapM {f : α → Except ε (Option β)}
    (each : ∀ a ∈ l, Gives (fun found => ∀ b ∈ found, Q b) (f a)) :
    Gives (fun bs => ∀ b ∈ bs, Q b) (l.filterMapM f) := by
  induction l with
  | nil => exact ⟨[], rfl, by simp⟩
  | cons a l ih =>
    rw [List.forall_mem_cons] at each
    rw [List.filterMapM_cons]
    refine each.1.bind fun found holds => ?_
    cases found with
    | none => exact ih each.2
    | some b =>
      exact (ih each.2).bind fun bs others => .pure (List.forall_mem_cons.2 ⟨holds b rfl, others⟩)

end Gives

/-- The answers for a list are those for its members, and every member is answered. -/
theorem mem_iff_of_mapM_eq_ok (answered : l.mapM f = .ok bs) :
    (∀ b, b ∈ bs ↔ ∃ a ∈ l, f a = .ok b) ∧ ∀ a ∈ l, ∃ b, f a = .ok b := by
  induction l generalizing bs with
  | nil =>
    cases answered
    simp
  | cons a l ih =>
    rw [List.mapM_cons] at answered
    obtain ⟨first, isFirst, answered⟩ := exists_of_bind_eq_ok answered
    obtain ⟨others, areOthers, answered⟩ := exists_of_bind_eq_ok answered
    cases answered
    obtain ⟨given, each⟩ := ih areOthers
    refine ⟨fun b => ?_, List.forall_mem_cons.2 ⟨⟨_, isFirst⟩, each⟩⟩
    simp [given, isFirst, eq_comm]

/-- The answers that are kept for a list are those for its members, and every member is
answered. -/
theorem mem_iff_of_filterMapM_eq_ok {f : α → Except ε (Option β)}
    (answered : l.filterMapM f = .ok bs) :
    (∀ b, b ∈ bs ↔ ∃ a ∈ l, f a = .ok (some b)) ∧ ∀ a ∈ l, ∃ found, f a = .ok found := by
  induction l generalizing bs with
  | nil =>
    cases answered
    simp
  | cons a l ih =>
    rw [List.filterMapM_cons] at answered
    obtain ⟨found, isFirst, answered⟩ := exists_of_bind_eq_ok answered
    cases found with
    | none =>
      obtain ⟨kept, each⟩ := ih answered
      refine ⟨fun b => ?_, List.forall_mem_cons.2 ⟨⟨_, isFirst⟩, each⟩⟩
      simp [kept, isFirst]
    | some first =>
      obtain ⟨others, areOthers, answered⟩ := exists_of_bind_eq_ok answered
      cases answered
      obtain ⟨kept, each⟩ := ih areOthers
      refine ⟨fun b => ?_, List.forall_mem_cons.2 ⟨⟨_, isFirst⟩, each⟩⟩
      simp [kept, isFirst, eq_comm]

end TidyScript
