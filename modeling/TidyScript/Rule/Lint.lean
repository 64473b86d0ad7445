import TidyScript.Rule.Flow
import TidyScript.Rule.Logic
import TidyScript.Settings.Basic

/-!
# Running the rules

Each rule looks at every node of its sort in the order of completion, hidden places
included. The reports of all rules that are switched on are listed by place.
-/

namespace TidyScript

/-- The reports of a single rule. -/
def Rule.reports (program : Program) : Rule → Except Fault (List Report)
  | .deMorgan => program.exprs.toList.filterMapM program.negationReport?
  | .simplifyLogic => program.exprs.toList.filterMapM program.shorteningReport?
  | .noElseReturn => program.stmts.toList.filterMapM program.elseReport?
  | .noDuplicateReturn => do
    return (← program.functionBodies.mapM program.bodyReports).flatten
  | .tryCatchTail => program.stmts.toList.filterMapM program.endingReport?

/-- The reports of all rules that are switched on, by place. -/
def Program.lint (program : Program) (rules : RuleSet) : Except Fault (List Report) := do
  let found ← (Rule.all.filter rules.enables).mapM fun rule => rule.reports program
  return Report.sort found.flatten

end TidyScript
