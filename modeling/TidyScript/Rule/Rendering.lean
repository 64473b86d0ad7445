import TidyScript.Json.Basic
import TidyScript.Program.Source
import TidyScript.Rule.Basic

/-!
# Reports as text and as JSON

A report is one line of text, which names the place, the rule and what was found. As
JSON it also has the place where it ends and the edits of its fixes. Lines and columns
count from one, and edits are given by byte offsets.
-/

namespace TidyScript

/-! ## Fixes -/

/-- An edit as JSON. -/
def Edit.toJson (edit : Edit) : Json :=
  .object
    [("range", .object [("start", .number edit.span.start), ("end", .number edit.span.stop)]),
     ("replacement", .string edit.replacement)]

/-- A fix as JSON. -/
def Fix.toJson (fix : Fix) : Json :=
  .object [("edits", .array (fix.edits.map Edit.toJson))]

/-! ## Reports -/

namespace Program

/-- The line of text for a report in the file `path`. -/
def reportLine (program : Program) (path : String) (report : Report) : Except Fault String := do
  let place ← program.position report.span.start
  return path ++ ":" ++ toString place.line ++ ":" ++ toString place.column ++ "  " ++
    report.rule.name ++ "/" ++ report.id ++ "  " ++ report.message ++ "\n"

/-- The lines of text for reports. -/
def reportLines (program : Program) (path : String) (reports : List Report) :
    Except Fault String := do
  return String.join (← reports.mapM (program.reportLine path))

/-- A report as JSON. -/
def reportJson (program : Program) (report : Report) : Except Fault Json := do
  let start ← program.position report.span.start
  let stop ← program.position report.span.stop
  return .object
    [("rule", .string report.rule.name), ("message_id", .string report.id),
     ("message", .string report.message),
     ("line", .number start.line), ("column", .number start.column),
     ("end_line", .number stop.line), ("end_column", .number stop.column),
     ("fix", (report.fix.map Fix.toJson).getD .null),
     ("suggestions", .array (report.suggestions.map Fix.toJson))]

/-- Reports as JSON. -/
def reportsJson (program : Program) (reports : List Report) : Except Fault Json := do
  return .array (← reports.mapM program.reportJson)

end Program

end TidyScript
