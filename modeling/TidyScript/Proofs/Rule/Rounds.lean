import TidyScript.Proofs.Phrase.Proposal
import TidyScript.Proofs.Text.Answer
import TidyScript.Proofs.Value.Stuck
import TidyScript.Rule.Repair

/-!
# Rounds on expressions

With the rules on expressions alone, each round turns the source of a sentence into the source of
another sentence, which weighs less with every fix. When negations do not move, the two sentences
have the same value. So do the first and the last one of all rounds together.
-/

namespace TidyScript

open Grammar

/-- The rule on logical expressions, alone. -/
def RuleSet.onlySimplifyLogic : RuleSet where
  deMorgan := false
  simplifyLogic := true
  noElseReturn := false
  noDuplicateReturn := false
  tryCatchTail := false

/-- The rule on logical expressions, with the one on negations or without it. -/
def RuleSet.onlyLogic (negating : Bool) : RuleSet :=
  { RuleSet.onlySimplifyLogic with deMorgan := negating }

namespace Program

/-- The expression of a program that is a single expression statement. -/
def soleExpression? (program : Program) : Option (Expr Mark) :=
  match program.body with
  | [.expression _ e] => some e
  | _ => none

theorem soleExpression?_eq_some {program : Program} {e : Expr Mark} :
    program.soleExpression? = some e ↔ ∃ mark, program.body = [.expression mark e] := by
  unfold soleExpression?
  split
  · next mark other body => simp [body]
  · next other =>
    constructor
    · intro is
      cases is
    · rintro ⟨mark, body⟩
      exact absurd body (other mark e)

end Program

namespace Sentence

variable {s : Sentence} {program : Program} {negating : Bool}

theorem toList_source (s : Sentence) :
    s.source.toList = s.phrase.chars ++ (s.ending.flatMap Piece.chars ++ s.final) := by
  rw [source, String.toList_ofList, Piece.render, pieces, List.flatMap_append, List.append_assoc]
  rfl

theorem part_phrase (sound : s.Sound) : s.Part s.phrase 0 :=
  ⟨s.holds_phrase, sound.grouped⟩

/-- The report lies on a node of the sentence and carries a fix that changes it. -/
def Reported (s : Sentence) (program : Program) (negating : Bool) (report : Report) : Prop :=
  ∃ e ∈ s.phrase.nodes 0 0, ∃ edit, report.fix = some (.single edit) ∧
    program.Changes negating e edit ∧ report.span = e.span

section Reports

variable (sound : s.Sound) (isRead : s.IsRead program)
include sound isRead

theorem gives_shorteningReport? {e : Expr Mark} (mem : e ∈ s.phrase.nodes 0 0) :
    Gives (fun found => ∀ report, found = some report → s.Reported program negating report)
      (program.shorteningReport? e) := by
  obtain ⟨ψ, place, count, outer, part, _, rfl⟩ := (part_phrase sound).isEnclosed e mem
  obtain ⟨result, found, _⟩ := part.shortens sound isRead outer count
  rw [Program.shorteningReport?, found]
  cases result with
  | none => exact .pure nofun
  | some shortening =>
    refine .pure ?_
    rintro report ⟨rfl⟩
    exact ⟨_, mem, _, rfl, .inl ⟨shortening, found, rfl⟩, rfl⟩

theorem gives_negationReport? {e : Expr Mark} (mem : e ∈ s.phrase.nodes 0 0) :
    Gives (fun found => ∀ report, found = some report → s.Reported program true report)
      (program.negationReport? e) := by
  unfold Program.negationReport?
  split
  · next mark argument =>
    split
    · next kind =>
      refine .ite (fun conditions => ?_) fun _ => .pure nofun
      rw [Bool.and_eq_true] at conditions
      have inward : argument.movesInward = true := by
        simp [Expr.movesInward, kind, conditions.2]
      obtain ⟨ψ, place, count, outer, part, _, enclosed⟩ := (part_phrase sound).isEnclosed _ mem
      have node : ψ.node count place = .unary (ψ.node count place).mark .not argument := by
        have same := congrArg (Expr.withMark (ψ.node count place).mark) enclosed
        rw [Phrase.enclosed, Expr.withMark_withMark, Expr.withMark_mark] at same
        exact same.symm
      obtain ⟨χ, place', standsχ, rfl, _⟩ := (part.stands sound).of_not node
      have made := standsχ.negation_eq (isRead.spells sound) (χ.span place') count
      rw [Phrase.enclosed_span] at made
      rw [made]
      refine .pure ?_
      rintro report ⟨rfl⟩
      exact ⟨_, mem, _, rfl, .inr ⟨rfl, _, _, _, rfl, inward, made, rfl⟩, rfl⟩
    · exact .pure nofun
  · exact .pure nofun

/-- **Linting does not fail, and every report carries a fix that changes a node.** -/
theorem gives_lint :
    Gives (fun reports => ∀ report ∈ reports, s.Reported program negating report)
      (program.lint (.onlyLogic negating)) := by
  have rules : ∀ rule ∈ Rule.all.filter (RuleSet.onlyLogic negating).enables,
      Gives (fun reports => ∀ report ∈ reports, s.Reported program negating report)
        (rule.reports program) := by
    intro rule mem
    have mem := (List.mem_filter.1 mem).2
    cases rule with
    | deMorgan =>
      obtain rfl : negating = true := mem
      rw [Rule.reports, isRead.exprs]
      exact .filterMapM fun e here => gives_negationReport? sound isRead here
    | simplifyLogic =>
      rw [Rule.reports, isRead.exprs]
      exact .filterMapM fun e here => gives_shorteningReport? sound isRead here
    | _ => cases mem
  refine (Gives.mapM rules).bind fun found each => .pure fun report mem => ?_
  obtain ⟨reports, memReports, memReport⟩ := List.mem_flatten.1 (List.mem_mergeSort.1 mem)
  exact each reports memReports report memReport

end Reports

/-- **One round gives a sentence that weighs less with every fix.** -/
theorem exists_round (sound : s.Sound) (isRead : s.IsRead program)
    (free : negating = true → s.phrase.Airy) :
    ∃ reports, program.lint (.onlyLogic negating) = .ok reports ∧
      (∀ report ∈ reports, s.Reported program negating report) ∧
        ∃ φ : Phrase,
          Fix.applyAll program.source (Repair.fixes reports) =
              .ok ((⟨φ, s.ending, s.final⟩ : Sentence).source,
                (Fix.accepted (Repair.fixes reports)).length) ∧
            (⟨φ, s.ending, s.final⟩ : Sentence).Sound ∧
              s.phrase.Amended s.phrase.Airy negating
                (Fix.accepted (Repair.fixes reports)).length φ := by
  obtain ⟨reports, listed, reported⟩ := gives_lint sound isRead
  have proposed : ∀ fix ∈ Repair.fixes reports, ∃ edit, fix = .single edit ∧
      ∃ e ∈ s.phrase.nodes 0 0, program.Changes negating e edit := by
    intro fix mem
    obtain ⟨report, memReport, carried⟩ := List.mem_filterMap.1 mem
    obtain ⟨e, here, edit, same, changes, _⟩ := reported report memReport
    exact ⟨edit, Option.some.inj (carried.symm.trans same), e, here, changes⟩
  obtain ⟨ordered, origin⟩ := @Fix.pairwise_accepted_single (Repair.fixes reports) fun fix mem => by
    obtain ⟨edit, same, e, here, changes⟩ := proposed fix mem
    refine ⟨edit, same, ?_⟩
    rw [changes.span_eq]
    exact ((part_phrase sound).span_bounds sound here).2.1
  obtain ⟨φ, amended, woven, _⟩ := exists_amended sound isRead free ordered fun edit mem => by
    obtain ⟨edit', same, e, here, changes⟩ := proposed _ (origin edit mem)
    cases same
    exact ⟨e, here, changes⟩
  have count : (Edit.sort ((Fix.accepted (Repair.fixes reports)).flatMap Fix.edits)).length =
      (Fix.accepted (Repair.fixes reports)).length :=
    Fix.length_edits_of_single fun fix mem => by
      obtain ⟨edit, same, _⟩ := proposed fix (Fix.mem_of_mem_accepted mem)
      exact ⟨edit, same⟩
  rw [count] at amended
  refine ⟨reports, listed, reported, φ, ?_, sound.exchange amended.neat.legible, amended⟩
  have text : program.source.toList =
      s.phrase.chars ++ (s.ending.flatMap Piece.chars ++ s.final) := by
    rw [isRead.source, toList_source]
  rw [Fix.applyAll_eq (text ▸ woven.before (s.ending.flatMap Piece.chars ++ s.final))]
  refine congrArg (fun output => Except.ok (output, _)) (String.ext ?_)
  rw [toList_source, String.toList_ofList]

/-- The step of a run whose round gives a source that can be read. -/
theorem continueFrom_succ {rules : RuleSet} {left passes applied count : Nat} {reports : List Report}
    {output : String} {next : Program} (listed : program.lint rules = .ok reports)
    (made : Fix.applyAll program.source (Repair.fixes reports) = .ok (output, count))
    (read : Program.parse output = .ok next) :
    Repair.continueFrom rules (left + 1) program passes applied =
      if count = 0 || output = program.source then
        .ok ⟨program.source, passes, applied, reports, none⟩
      else Repair.continueFrom rules left next (passes + 1) (applied + count) := by
  rw [Repair.continueFrom, listed]
  simp only [bind, Except.bind, made, read]
  rfl

/-- **All rounds together give a sentence with the same value.** -/
theorem exists_continueFrom (left : Nat) (sound : s.Sound) (isRead : s.IsRead program)
    (passes applied : Nat) :
    ∃ repair, Repair.continueFrom .onlySimplifyLogic left program passes applied = .ok repair ∧
      ∃ s' : Sentence, s'.Sound ∧ repair.output = s'.source ∧
        ∀ bindings, bindings "undefined" = none →
          s'.phrase.value bindings = s.phrase.value bindings := by
  induction left generalizing s program passes applied with
  | zero =>
    obtain ⟨reports, listed, _⟩ := @gives_lint s program false sound isRead
    have listed : program.lint .onlySimplifyLogic = .ok reports := listed
    exact ⟨_, by rw [Repair.continueFrom, listed]; rfl, s, sound, isRead.source, fun _ _ => rfl⟩
  | succ left ih =>
    obtain ⟨reports, listed, _, φ, made, sound', amended⟩ :=
      @exists_round s program false sound isRead (by simp)
    obtain ⟨next, read, isRead'⟩ := sound'.parse
    have listed : program.lint .onlySimplifyLogic = .ok reports := listed
    rw [continueFrom_succ listed made read]
    split
    · exact ⟨_, rfl, s, sound, isRead.source, fun _ _ => rfl⟩
    · obtain ⟨repair, done, s', soundLast, output, kept⟩ := ih sound' isRead' (passes + 1) _
      exact ⟨repair, done, s', soundLast, output, fun bindings unbound =>
        (kept bindings unbound).trans (amended.value rfl bindings unbound)⟩

/-! ## Evaluating the sentence -/

/-- The program knows the text of every node. -/
theorem exists_text_eq_ok (sound : s.Sound) (isRead : s.IsRead program) :
    ∀ e ∈ s.phrase.nodes 0 0, ∃ text, program.text e.span = .ok text := by
  intro e mem
  obtain ⟨ψ, place, count, outer, part, _, rfl⟩ := (part_phrase sound).isEnclosed e mem
  obtain ⟨core, place', ⟨isAt, _⟩, span, _⟩ :=
    Phrase.exists_span_node part.holds (part.legible sound) count
  exact ⟨_, by rw [Phrase.span_enclosed, span, isAt.text_eq (isRead.spells sound)]⟩

/-- Evaluating the sentence gives the value of its phrase. -/
theorem toOption_eval (sound : s.Sound) (isRead : s.IsRead program) (bindings : Bindings) :
    (program.eval bindings s.node).toOption = s.phrase.value bindings ∧
      ∀ cause, program.eval bindings s.node ≠ .error (.fault cause) := by
  refine ⟨?_, fun cause => ?_⟩
  · rw [Program.toOption_eval]
    exact Phrase.eval_node bindings s.phrase 0 0
  · rw [Program.eval]
    split
    · intro fault
      cases fault
    · intro fault
      cases fault
    · next mark evaluated =>
      obtain ⟨node, mem, rfl⟩ := Expr.exists_mark_eq s.node evaluated
      obtain ⟨text, found⟩ := exists_text_eq_ok sound isRead node mem
      rw [Expr.span] at found
      rw [found]
      intro fault
      cases fault

end Sentence

/-! ## The value of the source -/

/-- Two outcomes of evaluation that are the same value or both errors. -/
inductive SameOutcome : Except EvalError Value → Except EvalError Value → Prop where
  | value {v w : Value} (same : v.same w = true) : SameOutcome (.ok v) (.ok w)
  | error {e e' : EvalError} (first : ∀ cause, e ≠ .fault cause)
      (second : ∀ cause, e' ≠ .fault cause) : SameOutcome (.error e) (.error e')

theorem SameOutcome.of_toOption {x y : Except EvalError Value} (same : x.toOption = y.toOption)
    (first : ∀ cause, x ≠ .error (.fault cause)) (second : ∀ cause, y ≠ .error (.fault cause)) :
    SameOutcome x y := by
  cases x with
  | ok v =>
    cases y with
    | ok w =>
      obtain rfl : v = w := Option.some.inj same
      exact .value v.same_self
    | error e' => cases same
  | error e =>
    cases y with
    | ok w => cases same
    | error e' =>
      exact .error (fun cause is => first cause (by rw [is])) fun cause is => second cause (by rw [is])

/-- **Shortening logical expressions keeps the outcome of evaluation.** A source that is a single
statement of a plain expression is turned, by any number of rounds, into another source that is a
single expression statement. The two expressions have the same value, or neither of them has one,
whatever the names are bound to, as long as `undefined` is not among them. -/
theorem Repair.sameOutcome_simplifyLogic {source : String} {program : Program} {mark : Mark}
    {e : Expr Mark} (read : Program.parse source = .ok program)
    (body : program.body = [.expression mark e]) (plain : e.isPlain = true) (rounds : Nat)
    {bindings : Bindings} (unbound : bindings "undefined" = none) :
    ∃ repair, Repair.ofSource ⟨.onlySimplifyLogic, rounds⟩ source = .ok repair ∧
      ∃ (program' : Program) (mark' : Mark) (e' : Expr Mark),
        Program.parse repair.output = .ok program' ∧ program'.body = [.expression mark' e'] ∧
          SameOutcome (program.eval bindings e) (program'.eval bindings e') := by
  obtain ⟨s, sound, rfl, isRead⟩ := Sentence.of_parse read body plain
  obtain ⟨repair, done, s', sound', output, kept⟩ :=
    Sentence.exists_continueFrom rounds sound isRead 0 0
  obtain ⟨program', read', isRead'⟩ := sound'.parse
  obtain ⟨mark', body', _⟩ := isRead'.body
  obtain ⟨value, noFault⟩ := Sentence.toOption_eval sound isRead bindings
  obtain ⟨value', noFault'⟩ := Sentence.toOption_eval sound' isRead' bindings
  obtain rfl := isRead.node_eq body
  refine ⟨repair, ?_, program', mark', s'.node, output ▸ read', body',
    .of_toOption ?_ noFault noFault'⟩
  · rw [Repair.ofSource, read]
    exact congrArg (Except.mapError RepairError.fault) done
  · rw [value, value', kept bindings unbound]

/-- A conditional on each side of a connective, one with the negated test of the other. -/
theorem Repair.sameOutcome_simplifyLogic_conditionals :
    ∃ (program : Program) (mark : Mark) (e : Expr Mark),
      Program.parse "(q ? a : null) || (!q ? b : null);" = .ok program ∧
        program.body = [.expression mark e] ∧ e.isPlain = true ∧
          ∃ repair, Repair.ofSource ⟨.onlySimplifyLogic, 10⟩
              "(q ? a : null) || (!q ? b : null);" = .ok repair ∧
            ∃ (program' : Program) (mark' : Mark) (e' : Expr Mark),
              Program.parse repair.output = .ok program' ∧
                program'.body = [.expression mark' e'] ∧
                  SameOutcome (program.eval (Bindings.none.bind "q" (.boolean true)) e)
                    (program'.eval (Bindings.none.bind "q" (.boolean true)) e') := by
  have checked : ((Program.parse "(q ? a : null) || (!q ? b : null);").toOption.bind
      Program.soleExpression?).any Expr.isPlain = true := by decide +kernel
  obtain ⟨e, found, plain⟩ := (Option.any_eq_true ..).1 checked
  obtain ⟨program, read, sole⟩ := Option.bind_eq_some_iff.1 found
  obtain ⟨mark, body⟩ := Program.soleExpression?_eq_some.1 sole
  have read := eq_ok_of_toOption read
  exact ⟨program, mark, e, read, body, plain, sameOutcome_simplifyLogic read body plain 10 (by decide)⟩

end TidyScript
