import TidyScript.Command.Check
import TidyScript.Proofs.Grammar.Lookahead
import TidyScript.Proofs.Program.Parents
import TidyScript.Proofs.Rule.Runs
import TidyScript.Proofs.Text.Line
import TidyScript.Proofs.Value.Stuck

/-!
# A check always answers

A check has an answer for every source that can be read, whatever it is asked to do: it lints, tries
fixes out, fixes and renders without a request that no text can answer. Trying a fix out reads two
sources and evaluates them under many bindings, and that makes no such request either.

Behind this stands what reading gives: tokens and comments with the texts of their places, and nodes
whose numbers, and those of their children and parents, are in the tables of the program.
-/

namespace TidyScript

/-! ## What reading gives -/

namespace Program

/-- The number of the node and the numbers of its children are in the tables. -/
def Lists (program : Program) (node : Node Mark) : Prop :=
  node.id.Counted program.census ∧ ∀ child ∈ node.children, child.id.Counted program.census

variable {program : Program}

theorem Holds.lists {node : Node Mark} (held : program.Holds node) : program.Lists node :=
  ⟨held.seated.counted, fun child mem => (held.child child mem).seated.counted⟩

namespace Seated

theorem gives_position (_ : program.Seated) {offset : Nat}
    (boundary : Text.Boundary program.source offset) :
    Gives (fun _ => True) (program.position offset) :=
  .of_exists (Text.exists_positionOf boundary)

/-- **Reports that fit the source can be rendered.** -/
theorem gives_render (seated : program.Seated) (request : CheckRequest) {reports : List Report}
    (fits : ∀ report ∈ reports, report.Fits program.source) :
    Gives (fun _ => True) (program.render request reports) := by
  have line : ∀ report ∈ reports,
      Gives (fun _ => True) (program.reportLine request.path report) := fun report mem =>
    (seated.gives_position (fits report mem).start).bind fun _ _ => .pure trivial
  have json : ∀ report ∈ reports, Gives (fun _ => True) (program.reportJson report) :=
    fun report mem => (seated.gives_position (fits report mem).start).bind fun _ _ =>
      (seated.gives_position (fits report mem).stop).bind fun _ _ => .pure trivial
  have value : Gives (fun _ => True) (program.reportsJson reports) :=
    (Gives.mapM json).bind fun _ _ => .pure trivial
  unfold render
  split
  · exact (Gives.mapM line).bind fun _ _ => .pure trivial
  · exact value.bind fun _ _ => .pure trivial

/-! ## Trying fixes out -/

/-- The fix of a report that fits can be tried out. -/
theorem gives_tryFix? (seated : program.Seated) {report : Report}
    (fits : report.Fits program.source) : Gives (fun _ => True) (program.tryFix? report) := by
  unfold tryFix?
  split
  · exact .pure trivial
  · next edit tried =>
    have fitsEdit : edit.Fits program.source := by
      unfold Report.triedEdit? at tried
      split at tried
      · obtain ⟨fix, carried, first⟩ := Option.bind_eq_some_iff.1 tried
        exact (fits.fix fix carried).edits edit (List.mem_of_head? first)
      · cases tried
    refine (seated.gives_text fitsEdit.start fitsEdit.stop fitsEdit.forward).bind fun before _ =>
      (seated.gives_position fits.start).bind fun place _ => ?_
    split
    · exact .pure trivial
    · exact .pure trivial

/-- Evaluation gets stuck only at texts that can be quoted. -/
theorem eval_ne_fault (seated : program.Seated) {e : Expr Mark} (held : program.Holds (.expr e))
    (bindings : Bindings) (cause : Fault) : program.eval bindings e ≠ .error (.fault cause) := by
  unfold eval
  split
  · intro fault
    cases fault
  · intro fault
    cases fault
  · next mark stuck =>
    obtain ⟨node, mem, rfl⟩ := Expr.exists_mark_eq e stuck
    obtain ⟨text, found⟩ := seated.exists_text_of_edged (held.descendant e node mem).seated.span
    simp only [Node.mark] at found
    rw [found]
    intro fault
    cases fault

end Seated

end Program

/-! ## Comparing expressions -/

/-- The answer, if it is an error, is not a fault. -/
def Faultless {α : Type} (x : Except EvalError α) : Prop :=
  ∀ cause, x ≠ .error (.fault cause)

namespace Faultless

variable {α β : Type}

theorem ok (a : α) : Faultless (.ok a) :=
  fun _ => nofun

theorem bind {x : Except EvalError α} {f : α → Except EvalError β} (first : Faultless x)
    (further : ∀ a, x = .ok a → Faultless (f a)) : Faultless (x >>= f) := by
  intro cause stuck
  rcases Expr.bind_eq_error stuck with here | ⟨a, is, there⟩
  · exact first cause here
  · exact further a is cause there

theorem findSomeM? {f : α → Except EvalError (Option β)} (each : ∀ a, Faultless (f a))
    (l : List α) : Faultless (l.findSomeM? f) := by
  induction l with
  | nil => exact .ok _
  | cons a l ih =>
    refine (each a).bind fun found _ => ?_
    cases found with
    | none => exact ih
    | some b => exact .ok _

end Faultless

namespace CheckRequest

theorem exists_repair (request : CheckRequest) {source : String} {program : Program}
    (read : Program.parse source = .ok program) :
    ∃ outcome, request.repair source = .ok outcome := by
  have same := (Program.seated_of_parse read).1
  obtain ⟨repair, final, settles⟩ := Repair.exists_settles request.settings.rules
    (same.symm ▸ read) request.settings.maxFixPasses 0 0
  have made : Repair.ofSource request.settings source = .ok repair := by
    rw [Repair.ofSource_eq read, settles.run]
    rfl
  rw [CheckRequest.repair, made]
  exact ⟨_, rfl⟩

/-- A source that can be read has an outcome. -/
theorem exists_run {request : CheckRequest} {source : String} {program : Program}
    (given : request.source = some source) (read : Program.parse source = .ok program) :
    ∃ outcome, request.run = .ok outcome := by
  obtain ⟨-, seated⟩ := Program.seated_of_parse read
  obtain ⟨reports, listed, fits⟩ := seated.gives_lint request.settings.rules
  obtain ⟨wrong, tried, _⟩ := Gives.filterMapM fun report mem =>
    (seated.gives_tryFix? (fits report mem)).imp fun _ _ _ _ => trivial
  obtain ⟨repaired, isRepaired⟩ := request.exists_repair read
  obtain ⟨rendered, isRendered, _⟩ := seated.gives_render request fits
  rw [run, given]
  simp only [read, listed, tried, isRepaired, isRendered, Except.mapError, bind, Except.bind]
  cases request.verify <;> cases request.fix <;> exact ⟨_, rfl⟩

end CheckRequest

end TidyScript
