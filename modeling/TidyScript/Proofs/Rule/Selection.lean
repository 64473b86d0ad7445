import Mathlib.Data.Prod.Lex
import TidyScript.Proofs.List.Sorting
import TidyScript.Proofs.Rule.Runs

/-!
# Switching rules off

Reports are listed by one stable sort over the reports of all rules that are switched on. Switching
a rule off takes its reports out of the list and does nothing else: the others keep their order,
also those that start at one place. Behind this stand two facts. Every report names the rule that it
is from, and choosing reports before or after sorting gives the same list.
-/

namespace TidyScript

/-! ## Choosing and sorting -/

namespace Report

theorem le_trans (a b c : Report) (first : a.le b = true) (second : b.le c = true) :
    a.le c = true := by
  simp only [le, Bool.or_eq_true, Bool.and_eq_true, decide_eq_true_eq] at first second ⊢
  omega

theorem le_total (a b : Report) : (a.le b || b.le a) = true := by
  simp only [le, Bool.or_eq_true, Bool.and_eq_true, decide_eq_true_eq]
  omega

/-- Reports are listed in the order of their pairs of place and rule. -/
theorem le_iff {a b : Report} : a.le b = true ↔
    toLex (a.span.start, a.rule.rank) ≤ toLex (b.span.start, b.rule.rank) := by
  simp [le, Prod.Lex.toLex_le_toLex]

theorem pairwise_sort (reports : List Report) : (sort reports).Pairwise fun a b => a.le b = true :=
  List.pairwise_mergeSort le_trans le_total reports

/-- **Choosing reports before or after sorting gives the same list.** -/
theorem filter_sort (keeps : Report → Bool) (reports : List Report) :
    (sort reports).filter keeps = sort (reports.filter keeps) :=
  filter_mergeSort le_trans le_total keeps reports

end Report

/-! ## The rule of a report -/

/-- If the request is answered, the answer has the property. -/
def Only {ε α : Type} (P : α → Prop) (x : Except ε α) : Prop :=
  ∀ a, x = .ok a → P a

namespace Only

variable {ε α β : Type} {P : α → Prop} {Q : β → Prop}

theorem pure {a : α} (holds : P a) : Only P (Pure.pure a : Except ε α) := by
  rintro _ ⟨⟩
  exact holds

theorem bind {x : Except ε α} {f : α → Except ε β} (first : Only P x)
    (further : ∀ a, P a → Only Q (f a)) : Only Q (x >>= f) := by
  intro b answered
  cases is : x with
  | error cause =>
    rw [is] at answered
    cases answered
  | ok a =>
    rw [is] at answered
    exact further a (first a is) b answered

theorem any (x : Except ε α) : Only (fun _ => True) x :=
  fun _ _ => trivial

theorem ite {c : Prop} [Decidable c] {x y : Except ε α} (yes : Only P x) (no : Only P y) :
    Only P (if c then x else y) := by
  split
  · exact yes
  · exact no

/-- Requests for every member of a list. -/
theorem mapM {f : α → Except ε β} (each : ∀ a, Only Q (f a)) (l : List α) :
    Only (fun bs => ∀ b ∈ bs, Q b) (l.mapM f) := by
  induction l with
  | nil => exact .pure (by simp)
  | cons a l ih =>
    rw [List.mapM_cons]
    exact (each a).bind fun b holds => ih.bind fun bs others =>
      .pure (List.forall_mem_cons.2 ⟨holds, others⟩)

/-- Requests for every member of a list, of which some have no answer to keep. -/
theorem filterMapM {f : α → Except ε (Option β)}
    (each : ∀ a, Only (fun found => ∀ b ∈ found, Q b) (f a)) (l : List α) :
    Only (fun bs => ∀ b ∈ bs, Q b) (l.filterMapM f) := by
  induction l with
  | nil => exact .pure (by simp)
  | cons a l ih =>
    rw [List.filterMapM_cons]
    refine (each a).bind fun found holds => ?_
    cases found with
    | none => exact ih
    | some b => exact ih.bind fun bs others => .pure (List.forall_mem_cons.2 ⟨holds b rfl, others⟩)

end Only

namespace Rule

variable {program : Program}

/-- **Every report names the rule that it is from.** -/
theorem only_reports (rule : Rule) :
    Only (fun reports => ∀ report ∈ reports, report.rule = rule) (rule.reports program) := by
  cases rule with
  | deMorgan =>
    refine .filterMapM (fun e => ?_) _
    unfold Program.negationReport?
    split
    · split
      · exact .ite ((Only.any _).bind fun _ _ => .pure fun _ is => by cases is; rfl) (.pure nofun)
      · exact .pure nofun
    · exact .pure nofun
  | simplifyLogic =>
    refine .filterMapM (fun e => (Only.any _).bind fun found _ => ?_) _
    cases found with
    | none => exact .pure nofun
    | some shortening => exact .pure fun _ is => by cases is; rfl
  | noElseReturn =>
    refine .filterMapM (fun s => ?_) _
    unfold Program.elseReport?
    split
    · exact .ite ((Only.any _).bind fun _ _ => .pure fun _ is => by cases is; rfl) (.pure nofun)
    · exact .pure nofun
  | noDuplicateReturn =>
    have bodies : ∀ body, Only (fun reports => ∀ report ∈ reports, report.rule = .noDuplicateReturn)
        (program.bodyReports body) := by
      refine fun body => (Only.any _).bind fun guards _ => .pure fun report mem => ?_
      obtain ⟨found, _, inside⟩ := List.mem_flatMap.1 mem
      simp only [Program.guardReports, List.mem_cons, List.not_mem_nil, or_false] at inside
      rcases inside with rfl | rfl <;> rfl
    refine (Only.mapM bodies _).bind fun found holds => .pure fun report mem => ?_
    obtain ⟨reports, memReports, inside⟩ := List.mem_flatten.1 mem
    exact holds reports memReports report inside
  | tryCatchTail =>
    refine .filterMapM (fun s => ?_) _
    unfold Program.endingReport?
    split
    · exact (Only.any _).bind fun _ _ => (Only.any _).bind fun _ _ =>
        .pure fun _ is => by cases is; rfl
    · exact .pure nofun

/-- The reports of a rule are all chosen if the rule is, and none of them otherwise. -/
theorem filter_reports {rule : Rule} {reports : List Report} (rules : RuleSet)
    (answered : rule.reports program = .ok reports) :
    reports.filter (fun report => rules.enables report.rule) =
      if rules.enables rule then reports else [] := by
  have named := only_reports rule reports answered
  split
  · next isOn => exact List.filter_eq_self.2 fun report mem => by rw [named report mem, isOn]
  · next isOff => exact List.filter_eq_nil_iff.2 fun report mem => by rwa [named report mem]

/-- When all rules of a list answer, those that are switched on answer with the reports that name
one of them. -/
theorem exists_mapM_filter (rules : RuleSet) {list : List Rule} {found : List (List Report)}
    (answered : list.mapM (fun rule => rule.reports program) = .ok found) :
    ∃ chosen, (list.filter rules.enables).mapM (fun rule => rule.reports program) = .ok chosen ∧
      chosen.flatten = found.flatten.filter fun report => rules.enables report.rule := by
  induction list generalizing found with
  | nil =>
    cases answered
    exact ⟨[], rfl, rfl⟩
  | cons rule list ih =>
    rw [List.mapM_cons] at answered
    cases first : rule.reports program with
    | error cause => rw [first] at answered; cases answered
    | ok reports =>
      cases rest : list.mapM (fun rule => rule.reports program) with
      | error cause => rw [first, rest] at answered; cases answered
      | ok others =>
        rw [first, rest] at answered
        cases answered
        obtain ⟨chosen, answered, flat⟩ := ih rest
        rw [List.flatten_cons, List.filter_append, filter_reports rules first, ← flat,
          List.filter_cons]
        split
        · exact ⟨reports :: chosen, by rw [List.mapM_cons, first, answered]; rfl, rfl⟩
        · exact ⟨chosen, answered, rfl⟩

end Rule

/-! ## Independence -/

namespace Program

theorem filter_enables_default : Rule.all.filter ({} : RuleSet).enables = Rule.all := by
  decide

/-- **Rules are independent.** If all rules answer, then under every choice of rules the reports are
those of all rules that name a chosen one, in the same order, and they are ordered by where they
start and then by rule. All rules answer on every program that has been read. -/
theorem lint_eq_filter (program : Program) :
    (∀ all, program.lint {} = .ok all → ∀ rules : RuleSet,
      ∃ reports, program.lint rules = .ok reports ∧
        reports = all.filter (fun report => rules.enables report.rule) ∧
        reports.Pairwise fun a b =>
          toLex (a.span.start, a.rule.rank) ≤ toLex (b.span.start, b.rule.rank)) ∧
    (∀ source, parse source = .ok program → ∃ all, program.lint {} = .ok all) ∧
    ∀ source e, parseExpression source = .ok (program, e) → ∃ all, program.lint {} = .ok all := by
  refine ⟨fun all answered rules => ?_, fun source read => ?_, fun source e read => ?_⟩
  · unfold lint at answered ⊢
    rw [filter_enables_default] at answered
    cases every : Rule.all.mapM (fun rule => rule.reports program) with
    | error cause => rw [every] at answered; cases answered
    | ok found =>
      rw [every] at answered
      cases answered
      obtain ⟨chosen, answered, flat⟩ := Rule.exists_mapM_filter rules every
      refine ⟨Report.sort chosen.flatten, by rw [answered]; rfl, ?_, ?_⟩
      · rw [flat, Report.filter_sort]
      · exact (Report.pairwise_sort _).imp Report.le_iff.1
  · obtain ⟨all, answered, _⟩ := (seated_of_parse read).2.gives_lint {}
    exact ⟨all, answered⟩
  · obtain ⟨all, answered, _⟩ := (seated_of_parseExpression read).1.gives_lint {}
    exact ⟨all, answered⟩

/-- Two rules report at one place here, and one of them is switched off. -/
theorem lint_eq_filter_tied :
    ∃ program first second, parse "!(a && b) || !(a && b) && c" = .ok program ∧
      Rule.deMorgan.reports program = .ok first ∧ Rule.simplifyLogic.reports program = .ok second ∧
      first.map (fun report => report.span.start) = [0, 13] ∧
      second.map (fun report => report.span.start) = [0] ∧
      ∃ all reports, program.lint {} = .ok all ∧ program.lint { deMorgan := false } = .ok reports ∧
        reports = all.filter
          (fun report => ({ deMorgan := false } : RuleSet).enables report.rule) ∧
        reports.Pairwise fun a b =>
          toLex (a.span.start, a.rule.rank) ≤ toLex (b.span.start, b.rule.rank) := by
  have checked : (parse "!(a && b) || !(a && b) && c").toOption.any (fun program =>
      (Rule.deMorgan.reports program).toOption.any fun first =>
        (Rule.simplifyLogic.reports program).toOption.any fun second =>
          first.map (fun report => report.span.start) = [0, 13] ∧
            second.map (fun report => report.span.start) = [0]) = true := by decide +kernel
  obtain ⟨program, read, checked⟩ := exists_ok_of_any checked
  obtain ⟨first, isFirst, checked⟩ := exists_ok_of_any checked
  obtain ⟨second, isSecond, places⟩ := exists_ok_of_any checked
  have places := of_decide_eq_true places
  obtain ⟨filtered, answers, _⟩ := lint_eq_filter program
  obtain ⟨all, answered⟩ := answers _ read
  obtain ⟨reports, chosen⟩ := filtered all answered { deMorgan := false }
  exact ⟨program, first, second, read, isFirst,
    isSecond, places.1, places.2, all, reports, answered, chosen⟩

end Program

end TidyScript
