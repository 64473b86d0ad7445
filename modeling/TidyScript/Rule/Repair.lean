import TidyScript.Edit.Merge
import TidyScript.Rule.Lint

/-!
# Rounds of fixing

A round makes the fixes of all reports, as far as they do not collide, and reads the
result anew. Rounds follow each other until nothing is left to fix, a round changes
nothing, or the bound on rounds is reached. A round whose result can no longer be read
is undone and ends the run with a warning.
-/

namespace TidyScript

/-- A round that was undone because its result could not be read. -/
structure UndoneRound where
  error : ParseError
  round : Nat

/-- The outcome of fixing a source. -/
structure Repair where
  output : String
  /-- The number of rounds that made a fix. -/
  passes : Nat
  /-- The number of fixes made. -/
  applied : Nat
  /-- The reports on the output. -/
  remaining : List Report
  /-- The round that was undone, if one was. -/
  undone : Option UndoneRound

/-- Why a source could not be fixed. -/
inductive RepairError where
  | parse (error : ParseError)
  | fault (cause : Fault)

namespace Repair

/-- The fixes that reports carry. -/
def fixes (reports : List Report) : List Fix :=
  reports.filterMap Report.fix

/-- Goes on with at most `left` rounds, after `passes` rounds with `applied` fixes. -/
def continueFrom (rules : RuleSet) : (left : Nat) → (program : Program) → (passes applied : Nat) →
    Except Fault Repair
  | 0, program, passes, applied => do
    return ⟨program.source, passes, applied, ← program.lint rules, none⟩
  | left + 1, program, passes, applied => do
    let reports ← program.lint rules
    let (output, count) ← Fix.applyAll program.source (fixes reports)
    if count = 0 || output = program.source then
      return ⟨program.source, passes, applied, reports, none⟩
    else
      match Program.parse output with
      | .ok next => continueFrom rules left next (passes + 1) (applied + count)
      | .error error => return ⟨program.source, passes, applied, reports, some ⟨error, passes + 1⟩⟩

/-- Fixes a source as far as the settings allow. -/
def ofSource (settings : Settings) (source : String) : Except RepairError Repair := do
  let program ← (Program.parse source).mapError .parse
  (continueFrom settings.rules settings.maxFixPasses program 0 0).mapError .fault

end Repair

end TidyScript
