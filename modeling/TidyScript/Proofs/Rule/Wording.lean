import TidyScript.Proofs.Phrase.Rooting
import TidyScript.Proofs.Phrase.Shortening
import TidyScript.Proofs.Rule.Rendering
import TidyScript.Proofs.Rule.Selection

/-!
# A line for each report

As text, a report is a line that names the place, the rule and what was found, and the lines can be
told apart at their line breaks. Only the messages stand in the way. Two rules quote in their
messages: `simplify-logic` the text that an expression can be shortened to, and `try-catch-tail` the
statement that ends both blocks. Both are put together from the source as it is written, line
breaks included, so what is quoted may go over several lines.

There is a line for each report exactly if every text that is quoted is a line
(`reportLines_splits_iff`). What is quoted about a place is a line if the source is one there.
-/

namespace TidyScript

/-! ## Lines -/

namespace Text

/-- The text has no line break. -/
def IsLine (text : String) : Prop :=
  '\n' ∉ text.toList

instance : DecidablePred IsLine := fun text =>
  inferInstanceAs (Decidable ('\n' ∉ text.toList))

@[simp] theorem isLine_append {a b : String} : IsLine (a ++ b) ↔ IsLine a ∧ IsLine b := by
  simp [IsLine, not_or]

theorem isLine_toString (n : Nat) : IsLine (toString n) := by
  intro mem
  rw [Nat.toString_eq_repr, Nat.toList_repr] at mem
  exact absurd (Nat.isDigit_of_mem_toDigits (by decide) (by decide) mem) (by decide)

/-- A part of a line is a line. -/
theorem Shows.isLine {source text part : String} {span inner : Span}
    (shows : Shows source span text) (within : Shows source inner part)
    (starts : span.start ≤ inner.start) (stops : inner.stop ≤ span.stop) (line : IsLine text) :
    IsLine part := by
  obtain ⟨front, back, parts⟩ := shows.inside within starts stops
  intro mem
  exact line (by simp [parts, mem])

/-- Splitting gives one part more than there are places to split at. -/
theorem length_splitOn (c : Char) (cs : List Char) :
    (cs.splitOn c).length = cs.count c + 1 := by
  induction cs with
  | nil => rfl
  | cons d cs ih =>
    rw [List.splitOn_cons_eq_if_modifyHead, List.count_cons]
    split
    · rw [List.length_cons, ih]
    · rw [List.length_modifyHead, ih]

theorem length_le_count_stacked (texts : List String) :
    texts.length ≤ (stacked texts).count '\n' := by
  induction texts with
  | nil => exact Nat.le_refl _
  | cons text texts ih =>
    rw [stacked_cons, List.count_append, List.count_cons_self, List.length_cons]
    omega

/-- There are as many line breaks as texts exactly if each text is a line. -/
theorem count_stacked_iff (texts : List String) :
    (stacked texts).count '\n' = texts.length ↔ ∀ text ∈ texts, IsLine text := by
  induction texts with
  | nil => simp [stacked]
  | cons text texts ih =>
    have others := length_le_count_stacked texts
    rw [stacked_cons, List.count_append, List.count_cons_self, List.length_cons,
      List.forall_mem_cons, ← ih, IsLine, ← List.count_eq_zero]
    omega

/-- The texts are what splitting gives exactly if each text is a line. -/
theorem splitOn_stacked_iff (texts : List String) :
    (stacked texts).splitOn '\n' = texts.map String.toList ++ [[]] ↔
      ∀ text ∈ texts, IsLine text := by
  constructor
  · intro split
    have length := congrArg List.length split
    rw [length_splitOn, List.length_append, List.length_map, List.length_singleton] at length
    exact (count_stacked_iff texts).1 (Nat.add_right_cancel length)
  · intro lines
    induction texts with
    | nil => rfl
    | cons text texts ih =>
      rw [List.forall_mem_cons] at lines
      rw [stacked_cons, List.splitOn_append_cons_self_of_not_mem lines.1, ih lines.2]
      rfl

end Text

open Text (IsLine stacked Shows Boundary)

namespace Program

variable {program : Program} {e : Expr Mark} {s : Stmt Mark} {rule : Rule} {rules : RuleSet}
  {report : Report} {reports : List Report}

/-! ## What messages quote -/

/-- A rule quotes a text in the message of a report, about a place in the source. -/
inductive Quotes (program : Program) : Rule → Span → String → Prop where
  /-- What an expression can be shortened to. -/
  | shortening {e : Expr Mark} {shortening : Shortening} (mem : e ∈ program.exprs)
      (found : program.shorten? e = .ok (some shortening)) :
      Quotes program .simplifyLogic e.span shortening.replacement.text
  /-- The statement that ends a `try` and its handler. -/
  | ending {s : Stmt Mark} {ending : CommonEnding} {text : String} (mem : s ∈ program.stmts)
      (found : program.commonEnding? s = some ending)
      (written : program.stmtText ending.ofBlock = .ok text) :
      Quotes program .tryCatchTail ending.ofBlock.span text

/-- The report has a line for its name, and one for its message if the rule quotes only lines. -/
structure Worded (program : Program) (rule : Rule) (report : Report) : Prop where
  id : IsLine report.id
  message : (∀ span quoted, program.Quotes rule span quoted → IsLine quoted) →
    IsLine report.message

theorem worded_of_negationReport? (found : program.negationReport? e = .ok (some report)) :
    program.Worded .deMorgan report := by
  unfold negationReport? at found
  split at found
  · split at found
    · next kind =>
      split at found
      · obtain ⟨new, _, made⟩ := exists_of_bind_eq_ok found
        cases made
        unfold negationKind? at kind
        split at kind
        · cases kind
          exact ⟨by dsimp only; decide, fun _ => by dsimp only; decide⟩
        · cases kind
          exact ⟨by dsimp only; decide, fun _ => by dsimp only; decide⟩
        · cases kind
      · cases found
    · cases found
  · cases found

theorem worded_of_shorteningReport? (mem : e ∈ program.exprs)
    (found : program.shorteningReport? e = .ok (some report)) :
    program.Worded .simplifyLogic report := by
  obtain ⟨shortening, shortened, made⟩ := exists_of_bind_eq_ok found
  cases shortening with
  | none => cases made
  | some shortening =>
    cases made
    refine ⟨?_, fun lines => ?_⟩
    · dsimp only
      cases shortening.law <;> decide
    · have line := lines _ _ (.shortening mem shortened)
      simp [line]
      decide

theorem worded_of_elseReport? (found : program.elseReport? s = .ok (some report)) :
    program.Worded .noElseReturn report := by
  unfold elseReport? at found
  split at found
  · split at found
    · obtain ⟨fix, _, made⟩ := exists_of_bind_eq_ok found
      cases made
      exact ⟨by dsimp only; decide, fun _ => by dsimp only; decide⟩
    · cases found
  · cases found

theorem worded_of_bodyReports {body : List (Stmt Mark)}
    (found : program.bodyReports body = .ok reports) (mem : report ∈ reports) :
    program.Worded .noDuplicateReturn report := by
  obtain ⟨guards, _, made⟩ := exists_of_bind_eq_ok found
  cases made
  obtain ⟨guard, _, inside⟩ := List.mem_flatMap.1 mem
  simp only [guardReports, List.mem_cons, List.not_mem_nil, or_false] at inside
  rcases inside with rfl | rfl
  · exact ⟨by dsimp only; decide, fun _ => by dsimp only; decide⟩
  · exact ⟨by dsimp only; decide, fun _ => by dsimp only; decide⟩

theorem worded_of_endingReport? (mem : s ∈ program.stmts)
    (found : program.endingReport? s = .ok (some report)) :
    program.Worded .tryCatchTail report := by
  unfold endingReport? at found
  split at found
  · next ending shared =>
    obtain ⟨text, written, found⟩ := exists_of_bind_eq_ok found
    obtain ⟨fix, _, made⟩ := exists_of_bind_eq_ok found
    cases made
    refine ⟨by dsimp only; decide, fun lines => ?_⟩
    have line := lines _ _ (.ending mem shared written)
    simp [line]
    decide
  · cases found

/-- Every report of a rule is worded by it. -/
theorem worded_of_reports (found : rule.reports program = .ok reports) (mem : report ∈ reports) :
    program.Worded rule report := by
  cases rule with
  | deMorgan =>
    obtain ⟨e, _, made⟩ := ((mem_iff_of_filterMapM_eq_ok found).1 report).1 mem
    exact worded_of_negationReport? made
  | simplifyLogic =>
    obtain ⟨e, memE, made⟩ := ((mem_iff_of_filterMapM_eq_ok found).1 report).1 mem
    exact worded_of_shorteningReport? (Array.mem_def.2 memE) made
  | noElseReturn =>
    obtain ⟨s, _, made⟩ := ((mem_iff_of_filterMapM_eq_ok found).1 report).1 mem
    exact worded_of_elseReport? made
  | noDuplicateReturn =>
    obtain ⟨bodies, listed, made⟩ := exists_of_bind_eq_ok found
    cases made
    obtain ⟨some, memSome, inside⟩ := List.mem_flatten.1 mem
    obtain ⟨body, _, made⟩ := ((mem_iff_of_mapM_eq_ok listed).1 some).1 memSome
    exact worded_of_bodyReports made inside
  | tryCatchTail =>
    obtain ⟨s, memS, made⟩ := ((mem_iff_of_filterMapM_eq_ok found).1 report).1 mem
    exact worded_of_endingReport? (Array.mem_def.2 memS) made

/-- A text that a rule quotes stands in the message of a report. -/
theorem exists_report_of_quotes (found : rule.reports program = .ok reports) {span : Span}
    {quoted : String} (quotes : program.Quotes rule span quoted) :
    ∃ report ∈ reports, IsLine report.message → IsLine quoted := by
  cases quotes with
  | @shortening e shortening mem shortened =>
    have mem := Array.mem_def.1 mem
    obtain ⟨kept, answered⟩ := mem_iff_of_filterMapM_eq_ok found
    obtain ⟨answer, made⟩ := answered e mem
    obtain ⟨again, shortenedAgain, is⟩ := exists_of_bind_eq_ok made
    obtain rfl : again = some shortening := Except.ok.inj (shortenedAgain.symm.trans shortened)
    cases is
    refine ⟨_, (kept _).2 ⟨e, mem, made⟩, fun line => ?_⟩
    simp only [Text.isLine_append] at line
    exact line.1.2
  | @ending s ending _ mem shared written =>
    have mem := Array.mem_def.1 mem
    obtain ⟨kept, answered⟩ := mem_iff_of_filterMapM_eq_ok found
    obtain ⟨answer, made⟩ := answered s mem
    have reported := made
    rw [endingReport?, shared] at reported
    obtain ⟨again, writtenAgain, reported⟩ := exists_of_bind_eq_ok reported
    obtain rfl : again = quoted := Except.ok.inj (writtenAgain.symm.trans written)
    obtain ⟨fix, _, is⟩ := exists_of_bind_eq_ok reported
    cases is
    refine ⟨_, (kept _).2 ⟨s, mem, made⟩, fun line => ?_⟩
    simp only [Text.isLine_append] at line
    exact line.1.2

/-! ## Reports of all rules -/

/-- Every report that is listed is worded by a rule that is switched on. -/
theorem exists_worded_of_lint (listed : program.lint rules = .ok reports) (mem : report ∈ reports) :
    ∃ rule, rules.enables rule = true ∧ program.Worded rule report := by
  obtain ⟨found, each, sorted⟩ := exists_of_bind_eq_ok listed
  cases sorted
  obtain ⟨some, memSome, inside⟩ := List.mem_flatten.1 (List.mem_mergeSort.1 mem)
  obtain ⟨rule, chosen, made⟩ := ((mem_iff_of_mapM_eq_ok each).1 some).1 memSome
  exact ⟨rule, (List.mem_filter.1 chosen).2, worded_of_reports made inside⟩

/-- What a rule quotes stands in the message of a report that is listed, if the rule is switched
on. -/
theorem exists_listed_of_quotes (listed : program.lint rules = .ok reports)
    (isOn : rules.enables rule = true) {span : Span} {quoted : String}
    (quotes : program.Quotes rule span quoted) :
    ∃ report ∈ reports, IsLine report.message → IsLine quoted := by
  obtain ⟨found, each, sorted⟩ := exists_of_bind_eq_ok listed
  cases sorted
  have chosen : rule ∈ Rule.all.filter rules.enables :=
    List.mem_filter.2 ⟨by cases rule <;> decide, isOn⟩
  obtain ⟨given, answered⟩ := mem_iff_of_mapM_eq_ok each
  obtain ⟨some, made⟩ := answered rule chosen
  obtain ⟨report, mem, quoting⟩ := exists_report_of_quotes made quotes
  refine ⟨report, List.mem_mergeSort.2 (List.mem_flatten.2 ⟨some, ?_, mem⟩), quoting⟩
  exact (given some).2 ⟨rule, chosen, made⟩

theorem isLine_name (rule : Rule) : IsLine rule.name := by
  cases rule <;> decide

/-- The line of a report is one if the path, the name and the message are. -/
theorem isLine_line {path : String} (place : Text.Position) (single : IsLine path)
    (id : IsLine report.id) : IsLine (report.line path place) ↔ IsLine report.message := by
  have blanks : IsLine ":" ∧ IsLine "  " ∧ IsLine "/" := by decide
  simp only [Report.line, Text.isLine_append, single, id, isLine_name, Text.isLine_toString,
    blanks, true_and, and_true]

/-- The lines of reports are lines exactly if their messages are. -/
theorem forall_isLine_iff {path : String} (single : IsLine path) {places : List Text.Position}
    (length : places.length = reports.length) (ids : ∀ report ∈ reports, IsLine report.id) :
    (∀ line ∈ List.zipWith (Report.line path) places reports, IsLine line) ↔
      ∀ report ∈ reports, IsLine report.message := by
  induction reports generalizing places with
  | nil => simp
  | cons report reports ih =>
    cases places with
    | nil => cases length
    | cons place places =>
      rw [List.forall_mem_cons] at ids
      rw [List.zipWith_cons_cons, List.forall_mem_cons, List.forall_mem_cons,
        isLine_line place single ids.1, ih (Nat.succ.inj length) ids.2]

/-! ## Source that is a line -/

/-- The text of the expression, with its parentheses, is a line. -/
def OnLine (program : Program) (e : Expr Mark) : Prop :=
  Only IsLine (program.exprSource e)

theorem only_isLine_inside {outer inner : Span} (line : Only IsLine (program.text outer))
    (cut : ∃ text, program.text outer = .ok text) (starts : outer.start ≤ inner.start)
    (stops : inner.stop ≤ outer.stop) : Only IsLine (program.text inner) := by
  obtain ⟨text, whole⟩ := cut
  intro part is
  exact (Shows.of_cut whole).isLine (.of_cut is) starts stops (line text whole)

/-- What stands below an expression on a line stands on that line. -/
theorem onLine_of_child (seated : program.Seated) {e child : Expr Mark}
    (held : program.Holds (.expr e)) (mem : .expr child ∈ e.children)
    (line : Only IsLine (program.exprText e)) : program.OnLine child := by
  have inside := held.seated.spread.inside (.expr child) mem
  exact only_isLine_inside line (seated.exists_text_of_edged held.seated.span) inside.1 inside.2

theorem OnLine.below (seated : program.Seated) {e child : Expr Mark} (onLine : program.OnLine e)
    (held : program.Holds (.expr e)) (mem : .expr child ∈ e.children) : program.OnLine child := by
  refine onLine_of_child seated held mem ?_
  exact only_isLine_inside onLine (seated.exists_text_of_edged held.seated.outer)
    held.seated.around.1 held.seated.around.2

section Laws

variable {a b : Expr Mark}

theorem isLine_operand {fragment : Fragment} (line : IsLine fragment.text) (parent : Precedence)
    (right : Bool) : IsLine (fragment.operand parent right) := by
  have parentheses : IsLine "(" ∧ IsLine ")" := by decide
  unfold Fragment.operand
  split
  · simp [line, parentheses]
  · exact line

theorem OnLine.only_fragment (onLine : program.OnLine e) :
    Only (fun fragment => IsLine fragment.text) (program.fragment e) :=
  Only.bind onLine fun _ line => .pure line

theorem OnLine.only_operand (onLine : program.OnLine e) (parent : Precedence) (right : Bool) :
    Only IsLine (program.operand e parent right) :=
  onLine.only_fragment.bind fun _ line => .pure (isLine_operand line parent right)

theorem OnLine.only_testOperand (onLine : program.OnLine e) :
    Only IsLine (program.testOperand e) := by
  have parentheses : IsLine "(" ∧ IsLine ")" := by decide
  refine onLine.only_fragment.bind fun fragment line => .pure ?_
  split
  · simp [line, parentheses]
  · exact line

theorem only_joined (onLineA : program.OnLine a) (onLineB : program.OnLine b) (op : LogicalOp) :
    Only IsLine (program.joined op a b) := by
  have sign : IsLine " " ∧ IsLine op.text := by cases op <;> decide
  refine (onLineA.only_operand _ _).bind fun left lineLeft =>
    (onLineB.only_operand _ _).bind fun right lineRight => .pure ?_
  simp [sign, lineLeft, lineRight]

theorem isLine_foldedTernary {test consequent alternate : String} (lineTest : IsLine test)
    (lineConsequent : IsLine consequent) (lineAlternate : IsLine alternate) :
    IsLine (foldedTernary test consequent alternate).replacement.text := by
  have signs : IsLine " ? " ∧ IsLine " : " := by decide
  simp [foldedTernary, signs, lineTest, lineConsequent, lineAlternate]

/-- The expression is shortened to a line, if at all. -/
abbrev ShortensToLine (x : Except Fault (Option Shortening)) : Prop :=
  Only (fun found => ∀ shortening ∈ found, IsLine shortening.replacement.text) x

theorem shortensToLine_none : ShortensToLine (pure none) :=
  .pure nofun

theorem shortensToLine_some {shortening : Shortening} (line : IsLine shortening.replacement.text) :
    ShortensToLine (pure (some shortening)) :=
  .pure fun _ is => Option.some.inj is ▸ line

theorem absorption?_shortensToLine (onLine : program.OnLine a) (op : LogicalOp) :
    ShortensToLine (program.absorption? op a b) := by
  unfold absorption?
  split
  · exact .ite (onLine.only_fragment.bind fun _ line => shortensToLine_some line)
      shortensToLine_none
  · exact shortensToLine_none

theorem distribution?_shortensToLine (seated : program.Seated) (heldA : program.Holds (.expr a))
    (heldB : program.Holds (.expr b)) (onLineA : program.OnLine a) (onLineB : program.OnLine b)
    (outer : LogicalOp) : ShortensToLine (program.distribution? outer a b) := by
  unfold distribution?
  split
  · next op x left _ other y right =>
    have onLineX : program.OnLine x := onLineA.below seated heldA (by simp [Expr.children])
    have onLineLeft : program.OnLine left := onLineA.below seated heldA (by simp [Expr.children])
    have onLineRight : program.OnLine right := onLineB.below seated heldB (by simp [Expr.children])
    refine .ite ?_ shortensToLine_none
    refine (only_joined onLineLeft onLineRight outer).bind fun grouped lineGrouped =>
      (onLineX.only_operand _ _).bind fun shared lineShared => shortensToLine_some ?_
    have signs : IsLine " " ∧ IsLine op.text ∧ IsLine " (" ∧ IsLine ")" := by cases op <;> decide
    simp [signs, lineGrouped, lineShared]
  · exact shortensToLine_none

theorem foldWith_shortensToLine {fallback test₁ value₁ test₂ value₂ : Expr Mark}
    (onFallback : program.OnLine fallback) (onTest₁ : program.OnLine test₁)
    (onValue₁ : program.OnLine value₁) (onTest₂ : program.OnLine test₂)
    (onValue₂ : program.OnLine value₂) (op : LogicalOp) :
    ShortensToLine (program.foldWith op fallback test₁ value₁ test₂ value₂) := by
  have enclosed : ∀ {text}, IsLine text → IsLine ("(" ++ text ++ ")") := by
    intro text line
    have parentheses : IsLine "(" ∧ IsLine ")" := by decide
    simp [line, parentheses]
  refine .ite ?_ <| .ite (.ite ?_ shortensToLine_none) <| .ite (.ite ?_ shortensToLine_none) <|
    .ite ?_ shortensToLine_none
  · exact onTest₁.only_testOperand.bind fun _ test => (only_joined onValue₁ onValue₂ op).bind
      fun _ both => Only.bind onFallback fun _ fallback =>
        shortensToLine_some (isLine_foldedTernary test (enclosed both) fallback)
  · exact onTest₁.only_testOperand.bind fun _ test => (only_joined onValue₁ onFallback op).bind
      fun _ first => (onValue₂.only_operand _ _).bind fun _ second =>
        shortensToLine_some (isLine_foldedTernary test (enclosed first) second)
  · exact onTest₂.only_testOperand.bind fun _ test => (only_joined onValue₁ onFallback op).bind
      fun _ first => (onValue₂.only_operand _ _).bind fun _ second =>
        shortensToLine_some (isLine_foldedTernary test second (enclosed first))
  · refine (onTest₁.only_operand _ _).bind fun _ test => (onValue₁.only_operand _ _).bind
      fun _ guard => onTest₂.only_testOperand.bind fun _ test₂ =>
        (onValue₂.only_operand _ _).bind fun _ second => Only.bind onFallback fun _ fallback =>
          (onValue₁.only_operand _ _).bind fun _ first => shortensToLine_some ?_
    have sign : IsLine " && " := by decide
    exact isLine_foldedTernary (by simp [test, guard, sign]) first
      (isLine_foldedTernary test₂ second fallback)

theorem ternaryFold?_shortensToLine (seated : program.Seated) (heldA : program.Holds (.expr a))
    (heldB : program.Holds (.expr b)) (onLineA : program.OnLine a) (onLineB : program.OnLine b)
    (op : LogicalOp) : ShortensToLine (program.ternaryFold? op a b) := by
  unfold ternaryFold?
  split
  · refine .ite (foldWith_shortensToLine ?_ ?_ ?_ ?_ ?_ op) shortensToLine_none
    · exact onLineA.below seated heldA (by simp [Expr.children])
    · exact onLineA.below seated heldA (by simp [Expr.children])
    · exact onLineA.below seated heldA (by simp [Expr.children])
    · exact onLineB.below seated heldB (by simp [Expr.children])
    · exact onLineB.below seated heldB (by simp [Expr.children])
  · exact shortensToLine_none

/-- An expression on a line is shortened to a line, as far as names are lines. -/
theorem shorten?_shortensToLine (seated : program.Seated) (held : program.Holds (.expr e))
    (line : Only IsLine (program.exprText e))
    (names : ∀ mark op left right, e = .logical mark op left right →
      ∀ shortening ∈ tautology? left right, IsLine shortening.replacement.text) :
    ShortensToLine (program.shorten? e) := by
  unfold shorten?
  split
  · next mark op left right =>
    have heldLeft : program.Holds (.expr left) := held.below (by simp [Expr.children])
    have heldRight : program.Holds (.expr right) := held.below (by simp [Expr.children])
    have onLeft : program.OnLine left := onLine_of_child seated held (by simp [Expr.children]) line
    have onRight : program.OnLine right := onLine_of_child seated held (by simp [Expr.children]) line
    split
    · next named => exact shortensToLine_some (names mark op left right rfl _ named)
    · refine (absorption?_shortensToLine onLeft op).bind fun found line => ?_
      cases found with
      | some shortening => exact shortensToLine_some (line shortening rfl)
      | none =>
        refine (distribution?_shortensToLine seated heldLeft heldRight onLeft onRight op).bind
          fun found line => ?_
        cases found with
        | some shortening => exact shortensToLine_some (line shortening rfl)
        | none => exact ternaryFold?_shortensToLine seated heldLeft heldRight onLeft onRight op
  · exact shortensToLine_none

end Laws

/-! ## Names -/

/-- A name that is read from a word is a line. -/
theorem isLine_of_identifier {airy : Prop} {row : List Piece} {φ : Phrase} {offset count : Nat}
    {mark : Mark} {name : String} {regexAllowed : Bool} {final : List Char}
    (fits : Piece.Fits regexAllowed row final) (stands : φ.Stands airy row offset)
    (node : φ.node count offset = .identifier mark name) : IsLine name := by
  obtain ⟨ψ, place, mark', standsψ, core, nodeψ, _⟩ := stands.exists_core count
  rw [node] at nodeψ
  obtain ⟨word, rfl⟩ := Phrase.mirrors_of_node core nodeψ
  obtain ⟨kind, rfl⟩ := Piece.identifier_of_leaf standsψ.grouped nodeψ
  obtain ⟨before, behind, parts, _⟩ := standsψ.isAt
  obtain ⟨_, _, standsWord⟩ := fits.stands word (by simp [parts, Phrase.pieces])
  obtain ⟨c, tail, text, starts, more, _⟩ := standsWord.lexes.word (.inl kind)
  rw [IsLine, String.toList_ofList, text, List.mem_cons, not_or]
  constructor
  · rintro rfl
    exact absurd starts (by decide)
  · intro mem
    exact absurd (more _ mem) (by decide)

/-- A name that stands on both sides of a connective is a line. -/
theorem isLine_of_tautology? {source : String} (read : parse source = .ok program) {mark : Mark}
    {op : LogicalOp} {left right : Expr Mark} (mem : .logical mark op left right ∈ program.exprs)
    {shortening : Shortening} (found : tautology? left right = some shortening) :
    IsLine shortening.replacement.text := by
  unfold tautology? at found
  split at found
  · next m₁ a m₂ b =>
    split at found
    · next same =>
      cases found
      subst same
      by_cases reserved : a = "super" ∨ a = "import"
      · rcases reserved with rfl | rfl <;> decide
      · have plain : (Expr.logical mark op (.identifier m₁ a) (.identifier m₂ a)).isPlain = true := by
          simpa [Expr.isPlain] using reserved
        obtain ⟨row, final, spells, fits, stem⟩ := exists_row_of_read (.inl read)
        obtain ⟨φ, offset, count, outer, isAt, ⟨grouped, calm⟩, node⟩ := stem _ mem plain rfl
        have stands : φ.Stands False row offset := ⟨isAt, isAt.legible fits grouped calm, False.elim⟩
        have node : φ.node count offset =
            (Expr.logical mark op (.identifier m₁ a) (.identifier m₂ a)).withMark
              (φ.node count offset).mark := by
          rw [node, Phrase.enclosed, Expr.withMark_withMark, Expr.withMark_mark]
        obtain ⟨x, _, _, _, _, _, standsX, _, ⟨isX, _⟩, _⟩ := stands.of_logical node
        exact isLine_of_identifier fits standsX isX.symm
    · cases found
  · cases found

/-- **What is quoted about a place is a line if the source is one there.** -/
theorem isLine_of_quotes {source : String} (read : parse source = .ok program) {rule : Rule}
    {span : Span} {quoted : String} (quotes : program.Quotes rule span quoted) :
    ∃ text, program.text span = .ok text ∧ (IsLine text → IsLine quoted) := by
  have seated := (seated_of_parse read).2
  cases quotes with
  | @shortening e shortening mem found =>
    have held : program.Holds (.expr e) := seated.exprs e mem
    obtain ⟨text, written⟩ := seated.exists_text_of_edged held.seated.span
    refine ⟨text, written, fun line => ?_⟩
    have only : Only IsLine (program.exprText e) := by
      intro again is
      rwa [Except.ok.inj (is.symm.trans written)]
    refine shorten?_shortensToLine seated held only ?_ _ found shortening rfl
    rintro mark op left right rfl shortening named
    exact isLine_of_tautology? read mem named
  | ending mem found written => exact ⟨_, written, id⟩

/-! ## Splitting -/

/-- **A line for each report.** The reports on a source that can be read are rendered one behind the
other, each as its line and a line break. Splitting the text at the line breaks gives back these
lines exactly if every text that is quoted is a line, and then, and only then, there are as many
line breaks as reports. What is quoted about a place is a line if the source is one there. -/
theorem reportLines_splits_iff {source : String} (read : parse source = .ok program)
    (rules : RuleSet) {path : String} (single : IsLine path) :
    (∃ reports places text, program.lint rules = .ok reports ∧
      reports.mapM (fun report => program.position report.span.start) = .ok places ∧
      program.reportLines path reports = .ok text ∧
      text.toList = stacked (List.zipWith (Report.line path) places reports) ∧
      (text.toList.splitOn '\n' =
          (List.zipWith (Report.line path) places reports).map String.toList ++ [[]] ↔
        ∀ rule span quoted, rules.enables rule = true → program.Quotes rule span quoted →
          IsLine quoted) ∧
      (text.toList.count '\n' = reports.length ↔
        ∀ rule span quoted, rules.enables rule = true → program.Quotes rule span quoted →
          IsLine quoted)) ∧
    ∀ rule span quoted, program.Quotes rule span quoted →
      ∃ text, program.text span = .ok text ∧ (IsLine text → IsLine quoted) := by
  refine ⟨?_, fun _ _ _ quotes => isLine_of_quotes read quotes⟩
  obtain ⟨reports, listed, fits⟩ := (seated_of_parse read).2.gives_lint rules
  obtain ⟨places, placed, length, rendered⟩ := exists_reportLines path fun report mem => (fits report mem).start
  have worded := fun report (mem : report ∈ reports) => exists_worded_of_lint listed mem
  have lines : (∀ line ∈ List.zipWith (Report.line path) places reports, IsLine line) ↔
      ∀ rule span quoted, rules.enables rule = true → program.Quotes rule span quoted →
        IsLine quoted := by
    rw [forall_isLine_iff single length fun report mem => (worded report mem).elim fun _ is => is.2.id]
    constructor
    · intro messages rule span quoted isOn quotes
      obtain ⟨report, mem, quoting⟩ := exists_listed_of_quotes listed isOn quotes
      exact quoting (messages report mem)
    · intro quotes report mem
      obtain ⟨rule, isOn, worded⟩ := worded report mem
      exact worded.message fun span quoted => quotes rule span quoted isOn
  refine ⟨reports, places, _, listed, placed, rendered, String.toList_ofList, ?_, ?_⟩
  · rw [String.toList_ofList, Text.splitOn_stacked_iff, lines]
  · rw [String.toList_ofList, ← lines, ← Text.count_stacked_iff, List.length_zipWith, length,
      Nat.min_self]

/-- A report on a source of two lines that quotes a line. -/
theorem reportLines_splits_iff_name :
    ∃ program reports text, parse "x = b;\ny = a && a;" = .ok program ∧
      program.lint {} = .ok reports ∧ reports.length = 1 ∧
      program.reportLines "f.js" reports = .ok text ∧
      ∀ rule span quoted, ({} : RuleSet).enables rule = true →
        program.Quotes rule span quoted → IsLine quoted := by
  have checked : (parse "x = b;\ny = a && a;").toOption.any (fun program =>
      (program.lint {}).toOption.any fun reports =>
        (program.reportLines "f.js" reports).toOption.any fun text =>
          reports.length = 1 ∧ text.toList.count '\n' = 1) = true := by decide +kernel
  obtain ⟨program, read, checked⟩ := exists_ok_of_any checked
  obtain ⟨reports, listed, checked⟩ := exists_ok_of_any checked
  obtain ⟨text, rendered, checked⟩ := exists_ok_of_any checked
  obtain ⟨one, breaks⟩ := of_decide_eq_true checked
  have single : IsLine "f.js" := by decide
  obtain ⟨⟨_, _, _, listedAgain, _, renderedAgain, _, _, counted⟩, _⟩ :=
    reportLines_splits_iff read {} single
  obtain rfl := Except.ok.inj (listedAgain.symm.trans listed)
  obtain rfl := Except.ok.inj (renderedAgain.symm.trans rendered)
  exact ⟨program, _, _, read, listed, one, rendered, counted.1 (breaks.trans one.symm)⟩

/-- An operand that goes over two lines is quoted as it is, so a single report takes two lines. -/
theorem reportLines_over_two_lines :
    ∃ program reports text, parse "(a&&(b\n+c))||(a&&d);" = .ok program ∧
      program.lint {} = .ok reports ∧ program.reportLines "f.js" reports = .ok text ∧
      reports.length = 1 ∧ text.toList.count '\n' = 2 := by
  have checked : (parse "(a&&(b\n+c))||(a&&d);").toOption.any (fun program =>
      (program.lint {}).toOption.any fun reports =>
        (program.reportLines "f.js" reports).toOption.any fun text =>
          reports.length = 1 ∧ text.toList.count '\n' = 2) = true := by decide +kernel
  obtain ⟨program, read, checked⟩ := exists_ok_of_any checked
  obtain ⟨reports, listed, checked⟩ := exists_ok_of_any checked
  obtain ⟨text, rendered, checked⟩ := exists_ok_of_any checked
  exact ⟨program, reports, text, read, listed,
    rendered, of_decide_eq_true checked⟩

end Program

end TidyScript
