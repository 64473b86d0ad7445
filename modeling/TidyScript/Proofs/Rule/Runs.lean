import TidyScript.Proofs.Rule.FlowFits
import TidyScript.Rule.Repair

/-!
# Runs of rounds

A source that can be read can be fixed: all rules answer, the fixes of their reports fit the source,
and making fixes that fit is never refused. What a run of rounds does is told round by round. A
round either rests, since making the fixes changes nothing or gives a text that cannot be read, or
it advances to the program of the new text (`Round`).

* `settles_ofSource`: the outcome of a run is a program and its reports, and a run that stops
  before its bound has nothing more to do;
* `followedBy_ofSource`: a run that is followed by a run on its output does what a single run with
  both bounds together does.
-/

namespace TidyScript

open Text (Boundary)

/-! ## Linting -/

namespace Program.Seated

variable {program : Program}

/-- Every rule answers, with reports that fit the source. -/
theorem gives_reports (seated : program.Seated) (rule : Rule) :
    Gives (fun reports => ∀ report ∈ reports, report.Fits program.source) (rule.reports program) := by
  cases rule with
  | deMorgan =>
    exact .filterMapM fun e mem => seated.gives_negationReport? (seated.exprs e (by simpa using mem))
  | simplifyLogic =>
    exact .filterMapM fun e mem =>
      seated.gives_shorteningReport? (seated.exprs e (by simpa using mem))
  | noElseReturn =>
    exact .filterMapM fun s mem => seated.gives_elseReport? (seated.stmts s (by simpa using mem))
  | noDuplicateReturn =>
    refine (Gives.mapM fun body mem =>
      seated.gives_bodyReports (seated.lined_functionBodies body mem)).bind fun found fits =>
        .pure fun report mem => ?_
    obtain ⟨reports, memReports, inside⟩ := List.mem_flatten.1 mem
    exact fits reports memReports report inside
  | tryCatchTail =>
    exact .filterMapM fun s mem => seated.gives_endingReport? (seated.stmts s (by simpa using mem))

/-- **Linting always answers, with reports that fit the source.** -/
theorem gives_lint (seated : program.Seated) (rules : RuleSet) :
    Gives (fun reports => ∀ report ∈ reports, report.Fits program.source) (program.lint rules) := by
  refine (Gives.mapM fun rule _ => seated.gives_reports rule).bind fun found fits =>
    .pure fun report mem => ?_
  obtain ⟨reports, memReports, inside⟩ := List.mem_flatten.1 (List.mem_mergeSort.1 mem)
  exact fits reports memReports report inside

end Program.Seated

namespace Repair

/-! ## One round -/

/-- A run rests at a program: making the fixes of its reports changes nothing, or gives a text that
cannot be read. -/
inductive Rests (program : Program) (reports : List Report) : Option ParseError → Prop where
  | unchanged {count : Nat}
      (made : Fix.applyAll program.source (fixes reports) = .ok (program.source, count)) :
      Rests program reports none
  | unreadable {output : String} {count : Nat} {error : ParseError}
      (made : Fix.applyAll program.source (fixes reports) = .ok (output, count))
      (unread : Program.parse output = .error error) : Rests program reports (some error)

/-- All that one more round can do with a program. -/
inductive Round (rules : RuleSet) (program : Program) : Prop where
  | rests {reports : List Report} {error : Option ParseError}
      (listed : program.lint rules = .ok reports) (rests : Rests program reports error)
      (run : ∀ left passes applied, continueFrom rules (left + 1) program passes applied =
        .ok ⟨program.source, passes, applied, reports, error.map (⟨·, passes + 1⟩)⟩) :
      Round rules program
  | advances {next : Program} {count : Nat} (read : Program.parse next.source = .ok next)
      (some : 0 < count)
      (run : ∀ left passes applied, continueFrom rules (left + 1) program passes applied =
        continueFrom rules left next (passes + 1) (applied + count)) :
      Round rules program

variable {rules : RuleSet} {program : Program}

theorem exists_lint (rules : RuleSet) (read : Program.parse program.source = .ok program) :
    ∃ reports, program.lint rules = .ok reports ∧ ∃ output,
      Fix.applyAll program.source (fixes reports) =
        .ok (output, (Fix.accepted (fixes reports)).length) := by
  obtain ⟨reports, listed, fits⟩ := (Program.seated_of_parse read).2.gives_lint rules
  refine ⟨reports, listed, Fix.exists_applyAll fun fix mem => ?_⟩
  obtain ⟨report, memReport, carried⟩ := List.mem_filterMap.1 mem
  exact (fits report memReport).fix fix carried

/-- Without a fix that is taken, the text stays. -/
theorem eq_source_of_accepted_eq_nil {source output : String} {taken : List Fix} {count : Nat}
    (made : Fix.applyAll source taken = .ok (output, count)) (none : Fix.accepted taken = []) :
    output = source := by
  have whole : Fix.weave source 0 [] = .ok source := by
    have parts : source.toList = [] ++ source.toList ++ [] := by simp
    simpa [Fix.weave] using Text.cut_middle parts
  have sorted : Edit.sort (([] : List Fix).flatMap Fix.edits) = [] := by simp [Edit.sort]
  rw [Fix.applyAll, none, sorted, whole] at made
  cases made
  rfl

/-- **A round rests or advances.** -/
theorem round (rules : RuleSet) (read : Program.parse program.source = .ok program) :
    Round rules program := by
  obtain ⟨reports, listed, output, made⟩ := exists_lint rules read
  cases still : (Fix.accepted (fixes reports)).length = 0 || output = program.source with
  | true =>
    have same : output = program.source := by
      rcases Bool.or_eq_true_iff.1 still with nothing | same
      · exact eq_source_of_accepted_eq_nil made (List.length_eq_zero_iff.1 (of_decide_eq_true nothing))
      · exact of_decide_eq_true same
    refine .rests listed (.unchanged (same ▸ made)) fun left passes applied => ?_
    rw [continueFrom, listed]
    simp only [bind, Except.bind, made, still]
    rfl
  | false =>
    cases parsed : Program.parse output with
    | ok next =>
      have same := (Program.seated_of_parse parsed).1
      have some : 0 < (Fix.accepted (fixes reports)).length := by
        refine Nat.pos_of_ne_zero fun none => ?_
        simp [none] at still
      refine .advances (by rw [same]; exact parsed) some fun left passes applied => ?_
      rw [continueFrom, listed]
      simp only [bind, Except.bind, made, still, parsed]
      rfl
    | error error =>
      refine .rests listed (.unreadable made parsed) fun left passes applied => ?_
      rw [continueFrom, listed]
      simp only [bind, Except.bind, made, still, parsed]
      rfl

/-! ## What a run ends with -/

/-- The outcome of at most `left` rounds from a program, after `passes` rounds with `applied`
fixes. -/
structure Settles (rules : RuleSet) (program : Program) (left passes applied : Nat)
    (repair : Repair) (final : Program) : Prop where
  run : continueFrom rules left program passes applied = .ok repair
  read : Program.parse repair.output = .ok final
  listed : final.lint rules = .ok repair.remaining
  bound : repair.passes ≤ passes + left
  growth : ∃ rounds made, repair.passes = passes + rounds ∧ repair.applied = applied + made ∧
    rounds ≤ made ∧ (rounds = 0 → final = program)
  rests : repair.passes < passes + left → ∃ error, Rests final repair.remaining error ∧
    repair.undone = error.map (⟨·, repair.passes + 1⟩)

/-- **Every run comes to an end with a program and its reports.** -/
theorem exists_settles (rules : RuleSet) (read : Program.parse program.source = .ok program)
    (left passes applied : Nat) :
    ∃ repair final, Settles rules program left passes applied repair final := by
  -- A run of no rounds only lints; a longer one is a round and a run with one round less.
  induction left generalizing program passes applied with
  | zero =>
    obtain ⟨reports, listed, _⟩ := exists_lint rules read
    refine ⟨⟨program.source, passes, applied, reports, none⟩, program, ?_, read, listed,
      Nat.le_refl _, ⟨0, 0, rfl, rfl, Nat.le_refl _, fun _ => rfl⟩, fun less => ?_⟩
    · rw [continueFrom, listed]
      rfl
    · exact absurd less (Nat.lt_irrefl _)
  | succ left ih =>
    cases round rules read with
    | @rests reports error listed rests run =>
      exact ⟨⟨program.source, passes, applied, reports, error.map (⟨·, passes + 1⟩)⟩, program,
        run left passes applied, read, listed, Nat.le_add_right _ _,
        ⟨0, 0, rfl, rfl, Nat.le_refl _, fun _ => rfl⟩, fun _ => ⟨error, rests, rfl⟩⟩
    | @advances next count readNext some run =>
      obtain ⟨repair, final, settles⟩ := ih readNext (passes + 1) (applied + count)
      obtain ⟨rounds, made, isPasses, isApplied, le, _⟩ := settles.growth
      have bound : passes + 1 + left = passes + (left + 1) := by omega
      refine ⟨repair, final, (run left passes applied).trans settles.run, settles.read,
        settles.listed, bound ▸ settles.bound, ⟨rounds + 1, count + made, ?_, ?_, ?_, nofun⟩,
        bound ▸ settles.rests⟩
      · omega
      · omega
      · omega

theorem ofSource_eq {source : String} (read : Program.parse source = .ok program)
    (settings : Settings) :
    ofSource settings source =
      (continueFrom settings.rules settings.maxFixPasses program 0 0).mapError .fault := by
  rw [ofSource, read]
  rfl

/-- **A source that can be read can be fixed, and the run stops only at its bound or when it can do
nothing more.** The output can be read, and the reports that remain are those on the output. There
are at most as many rounds as the settings allow and at most as many as fixes, and without a round
the source stays as it is. A run that stops early has come to an output that stays the same when
the fixes of the remaining reports are made, which it does if there are none, or that they would
turn into a text that cannot be read. -/
theorem settles_ofSource {source : String} {program : Program}
    (read : Program.parse source = .ok program) (settings : Settings) :
    ∃ repair final, ofSource settings source = .ok repair ∧
      Program.parse repair.output = .ok final ∧
      final.lint settings.rules = .ok repair.remaining ∧
      repair.passes ≤ settings.maxFixPasses ∧ repair.passes ≤ repair.applied ∧
      (repair.passes = 0 → repair.output = source) ∧
      (repair.passes < settings.maxFixPasses →
        ∃ text count, Fix.applyAll repair.output (fixes repair.remaining) = .ok (text, count) ∧
          (text = repair.output ∧ repair.undone = none ∨
            ∃ error, Program.parse text = .error error ∧
              repair.undone = some ⟨error, repair.passes + 1⟩)) := by
  have same := (Program.seated_of_parse read).1
  obtain ⟨repair, final, settles⟩ := exists_settles settings.rules (same.symm ▸ read)
    settings.maxFixPasses 0 0
  have sameFinal := (Program.seated_of_parse settles.read).1
  obtain ⟨rounds, made, isPasses, isApplied, le, still⟩ := settles.growth
  refine ⟨repair, final, ?_, settles.read, settles.listed, by simpa using settles.bound, by omega,
    fun none => ?_, fun less => ?_⟩
  · rw [ofSource_eq read, settles.run]
    rfl
  · rw [← sameFinal, still (by omega), same]
  · obtain ⟨error, rests, undone⟩ := settles.rests (by simpa using less)
    cases rests with
    | unchanged made => exact ⟨repair.output, _, sameFinal ▸ made, .inl ⟨rfl, undone⟩⟩
    | unreadable made unread => exact ⟨_, _, sameFinal ▸ made, .inr ⟨_, unread, undone⟩⟩

/-- A source whose only round is undone, since the word `in` would be read with the name before
it. -/
theorem settles_ofSource_undone :
    ∃ program, Program.parse "!(a<b)in c" = .ok program ∧
      ∃ repair final, ofSource {} "!(a<b)in c" = .ok repair ∧
        Program.parse repair.output = .ok final ∧ final.lint {} = .ok repair.remaining ∧
        repair.passes ≤ 10 ∧ repair.passes ≤ repair.applied ∧
        (repair.passes = 0 → repair.output = "!(a<b)in c") ∧
        (repair.passes < 10 →
          ∃ text count, Fix.applyAll repair.output (fixes repair.remaining) = .ok (text, count) ∧
            (text = repair.output ∧ repair.undone = none ∨
              ∃ error, Program.parse text = .error error ∧
                repair.undone = some ⟨error, repair.passes + 1⟩)) := by
  have isOk : (Program.parse "!(a<b)in c").isOk = true := by decide +kernel
  cases read : Program.parse "!(a<b)in c" with
  | ok program => exact ⟨program, rfl, settles_ofSource read {}⟩
  | error error =>
    rw [read] at isOk
    cases isOk

/-! ## Runs one after the other -/

/-- The outcome of a run and of another run on its output, taken together. -/
def followedBy (first second : Repair) : Repair where
  output := second.output
  passes := first.passes + second.passes
  applied := first.applied + second.applied
  remaining := second.remaining
  undone := first.undone.or (second.undone.map fun undone =>
    ⟨undone.error, first.passes + undone.round⟩)

/-- A run that is counted from later numbers on. -/
theorem continueFrom_later (read : Program.parse program.source = .ok program) {left : Nat}
    {passes applied : Nat} {repair : Repair}
    (run : continueFrom rules left program passes applied = .ok repair) (earlier made : Nat) :
    continueFrom rules left program (earlier + passes) (made + applied) =
      .ok ⟨repair.output, earlier + repair.passes, made + repair.applied, repair.remaining,
        repair.undone.map fun undone => ⟨undone.error, earlier + undone.round⟩⟩ := by
  induction left generalizing program passes applied with
  | zero =>
    obtain ⟨reports, listed, _⟩ := exists_lint rules read
    rw [continueFrom, listed] at run
    cases run
    rw [continueFrom, listed]
    rfl
  | succ left ih =>
    cases round rules read with
    | @rests reports error listed rests step =>
      rw [step] at run ⊢
      cases run
      cases error <;> rfl
    | @advances next count readNext some step =>
      rw [step] at run ⊢
      simpa only [Nat.add_assoc] using ih readNext run

/-- Whatever is left to a run after `m` rounds, a second run does. -/
theorem exists_followedBy (read : Program.parse program.source = .ok program)
    (m n passes applied : Nat) :
    ∃ first final second, continueFrom rules m program passes applied = .ok first ∧
      Program.parse first.output = .ok final ∧ continueFrom rules n final 0 0 = .ok second ∧
      continueFrom rules (m + n) program passes applied = .ok (first.followedBy second) ∧
      (first.passes < passes + m → second.output = first.output ∧ second.passes = 0 ∧
        second.applied = 0 ∧ second.remaining = first.remaining) := by
  -- Where the first run rests, so does the second, and both runs together rest at once.
  induction m generalizing program passes applied with
  | zero =>
    obtain ⟨reports, listed, _⟩ := exists_lint rules read
    obtain ⟨second, final, settles⟩ := exists_settles rules read n 0 0
    refine ⟨⟨program.source, passes, applied, reports, none⟩, program, second, ?_, read,
      settles.run, ?_, fun less => absurd less (Nat.lt_irrefl _)⟩
    · rw [continueFrom, listed]
      rfl
    · rw [Nat.zero_add]
      exact continueFrom_later read settles.run passes applied
  | succ m ih =>
    have bounds : m + 1 + n = m + n + 1 := by omega
    rw [bounds]
    cases round rules read with
    | @rests reports error listed rests run =>
      refine ⟨_, program, ⟨program.source, 0, 0, reports, if n = 0 then none else error.map (⟨·, 1⟩)⟩,
        run m passes applied, read, ?_, ?_, fun _ => ⟨rfl, rfl, rfl, rfl⟩⟩
      · cases n with
        | zero =>
          rw [continueFrom, listed]
          rfl
        | succ n => exact run n 0 0
      · rw [run, followedBy]
        cases error with
        | none => simp
        | some error => simp
    | @advances next count readNext some run =>
      obtain ⟨first, final, second, ranFirst, readFinal, ranSecond, ranBoth, rest⟩ :=
        ih readNext (passes + 1) (applied + count)
      refine ⟨first, final, second, (run m passes applied).trans ranFirst, readFinal, ranSecond,
        (run (m + n) passes applied).trans ranBoth, fun less => rest ?_⟩
      omega

/-- **A run that is followed by a run on its output is a single run.** The output and the remaining
reports are those of the second run, and the rounds and the fixes of both runs add up. After a run
that has stopped before its bound a further run does nothing. -/
theorem followedBy_ofSource {source : String} {program : Program}
    (read : Program.parse source = .ok program) (rules : RuleSet) (m n : Nat) :
    ∃ first second, ofSource ⟨rules, m⟩ source = .ok first ∧
      ofSource ⟨rules, n⟩ first.output = .ok second ∧
      ofSource ⟨rules, m + n⟩ source = .ok (first.followedBy second) ∧
      (first.passes < m → second.output = first.output ∧ second.passes = 0 ∧
        second.applied = 0 ∧ second.remaining = first.remaining) := by
  have same := (Program.seated_of_parse read).1
  obtain ⟨first, final, second, ranFirst, readFinal, ranSecond, ranBoth, rest⟩ :=
    @exists_followedBy rules program (same.symm ▸ read) m n 0 0
  refine ⟨first, second, ?_, ?_, ?_, by simpa using rest⟩
  · rw [ofSource_eq read, ranFirst]
    rfl
  · rw [ofSource_eq readFinal, ranSecond]
    rfl
  · rw [ofSource_eq read, ranBoth]
    rfl

/-- Two rounds are needed here, since the negation of the whole hides a negation inside. -/
theorem followedBy_ofSource_nested :
    ∃ program, Program.parse "!(a && (q ? b : !(c === d)))" = .ok program ∧
      ∃ first second, ofSource ⟨{}, 1⟩ "!(a && (q ? b : !(c === d)))" = .ok first ∧
        ofSource ⟨{}, 2⟩ first.output = .ok second ∧
        ofSource ⟨{}, 1 + 2⟩ "!(a && (q ? b : !(c === d)))" = .ok (first.followedBy second) ∧
        (first.passes < 1 → second.output = first.output ∧ second.passes = 0 ∧
          second.applied = 0 ∧ second.remaining = first.remaining) := by
  have isOk : (Program.parse "!(a && (q ? b : !(c === d)))").isOk = true := by decide +kernel
  cases read : Program.parse "!(a && (q ? b : !(c === d)))" with
  | ok program => exact ⟨program, rfl, followedBy_ofSource read {} 1 2⟩
  | error error =>
    rw [read] at isOk
    cases isOk

end Repair

end TidyScript
