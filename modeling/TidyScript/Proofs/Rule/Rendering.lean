import TidyScript.Proofs.Program.Seat
import TidyScript.Proofs.Text.Line
import TidyScript.Rule.Rendering

/-!
# Reports as lines

As text, a report is a line that names its place by line and column. Positions grow along the
source, so reports that are sorted by their offsets are printed in the order of their lines and
columns, and reports at different offsets never name the same place.
-/

namespace TidyScript

open Text (Boundary byteLength)

/-- The texts one behind the other, each with a line break behind it. -/
def Text.stacked (texts : List String) : List Char :=
  texts.flatMap fun text => text.toList ++ ['\n']

theorem Text.stacked_cons (text : String) (texts : List String) :
    stacked (text :: texts) = text.toList ++ '\n' :: stacked texts := by
  simp [stacked]

open Text (stacked)

/-- The line of a report, with its place. -/
def Report.line (path : String) (place : Text.Position) (report : Report) : String :=
  path ++ ":" ++ toString place.line ++ ":" ++ toString place.column ++ "  " ++
    report.rule.name ++ "/" ++ report.id ++ "  " ++ report.message

namespace Program

variable {program : Program}

/-- Reports at boundaries of the source are rendered one behind the other. -/
theorem exists_reportLines (path : String) {reports : List Report}
    (starts : ∀ report ∈ reports, Boundary program.source report.span.start) :
    ∃ places, reports.mapM (fun report => program.position report.span.start) = .ok places ∧
      places.length = reports.length ∧
      program.reportLines path reports =
        .ok (String.ofList (stacked (List.zipWith (Report.line path) places reports))) := by
  induction reports with
  | nil => exact ⟨[], rfl, rfl, rfl⟩
  | cons report reports ih =>
    rw [List.forall_mem_cons] at starts
    obtain ⟨place, placed⟩ := Text.exists_positionOf starts.1
    replace placed : program.position report.span.start = .ok place := placed
    obtain ⟨places, others, length, rendered⟩ := ih starts.2
    refine ⟨place :: places, ?_, congrArg (· + 1) length, ?_⟩
    · rw [List.mapM_cons, placed, others]
      rfl
    · obtain ⟨texts, made, joined⟩ := exists_of_bind_eq_ok rendered
      have joined : String.join texts = String.ofList (stacked _) := Except.ok.inj joined
      rw [reportLines, List.mapM_cons, reportLine, placed, made]
      refine congrArg Except.ok ?_
      rw [String.join_cons, joined, List.zipWith_cons_cons, Text.stacked_cons]
      apply String.toList_injective
      simp [Report.line]

end Program

end TidyScript
