import TidyScript.Rule.Rendering
import TidyScript.Rule.Repair
import TidyScript.Value.Agreement

/-!
# Checking a source

A check lists the reports on a source, or fixes it. On request, every fix of a rule
about logic is tried out by evaluation first, and a fix that changes the value of its
expression gives a warning. Fixes that cannot be evaluated are passed over.
-/

namespace TidyScript

/-- How reports are written. -/
inductive ReportFormat where
  | text
  | json
deriving DecidableEq, Repr

/-- What a check is asked to do. -/
structure CheckRequest where
  source : Option String
  /-- The name of the source in lines of text. -/
  path : String := ""
  /-- Give the fixed source instead of reports. -/
  fix : Bool := false
  format : ReportFormat := .text
  /-- Write JSON in the indented layout. -/
  pretty : Bool := false
  /-- Try fixes out by evaluation. -/
  verify : Bool := false
  settings : Settings := {}

/-- A fix that changes the value of its expression. -/
structure WrongFix where
  rule : Rule
  place : Text.Position
  before : String
  after : String
  cause : Disagreement

/-- The wording of the warning. -/
def WrongFix.message (fix : WrongFix) : String :=
  "rewrite changes meaning: " ++ fix.cause.message

/-- The wording of the warning about a round that was undone. -/
def UndoneRound.message : String :=
  "fixed source no longer parses, keeping previous round"

/-- A warning of a check. -/
inductive Warning where
  | wrongFix (fix : WrongFix)
  | undoneRound (round : UndoneRound)

/-- What a check gives. -/
inductive CheckOutcome where
  | reports (rendered : String) (count : Nat)
  | fixed (source : String) (applied remaining : Nat)

namespace CheckOutcome

/-- Is nothing left to report? -/
def isClean : CheckOutcome → Bool
  | reports _ count => count = 0
  | fixed _ _ remaining => remaining = 0

/-- The text that a check prints. -/
def output : CheckOutcome → String
  | reports rendered _ => rendered
  | fixed source _ _ => source

end CheckOutcome

/-- Why a check gives nothing. -/
inductive CheckError where
  | noInput
  | parse (error : ParseError)
  | fault (cause : Fault)

/-- The wording of an error. -/
def CheckError.message : CheckError → String
  | noInput => "No input provided. Pass a file path or pipe JavaScript to stdin."
  | parse error => "Parse error: " ++ error.message
  | fault _ => "Internal error"

/-- An error of fixing as an error of checking. -/
def CheckError.ofRepair : RepairError → CheckError
  | .parse error => .parse error
  | .fault cause => .fault cause

/-! ## Trying fixes out -/

/-- The edit of a report that evaluation can try out. -/
def Report.triedEdit? (report : Report) : Option Edit :=
  if report.rule.isLogical then report.fix.bind fun fix => fix.edits.head? else none

namespace Program

/-- Tries the fix of a report out. -/
def tryFix? (program : Program) (report : Report) : Except Fault (Option WrongFix) :=
  match report.triedEdit? with
  | none => return none
  | some edit => do
    let before ← program.text edit.span
    let place ← program.position report.span.start
    match disagreement? before edit.replacement Value.samples with
    | .ok (some cause) => return some ⟨report.rule, place, before, edit.replacement, cause⟩
    | _ => return none

/-- The text of reports in the format that is asked for. -/
def render (program : Program) (request : CheckRequest) (reports : List Report) :
    Except Fault String :=
  match request.format with
  | .text => program.reportLines request.path reports
  | .json => do
    let value ← program.reportsJson reports
    return if request.pretty then value.pretty else value.compact

end Program

/-! ## The check -/

namespace CheckRequest

/-- Fixes the source, with a warning if a round had to be undone. -/
def repair (request : CheckRequest) (source : String) :
    Except CheckError (CheckOutcome × List Warning) := do
  let repair ← (Repair.ofSource request.settings source).mapError .ofRepair
  return (.fixed repair.output repair.applied repair.remaining.length,
    (repair.undone.map Warning.undoneRound).toList)

/-- Carries out a check. -/
def run (request : CheckRequest) : Except CheckError (CheckOutcome × List Warning) :=
  match request.source with
  | none => throw .noInput
  | some source => do
    let program ← (Program.parse source).mapError .parse
    let reports ← (program.lint request.settings.rules).mapError .fault
    let wrong ←
      if request.verify then (reports.filterMapM program.tryFix?).mapError .fault else pure []
    let (outcome, warnings) ←
      if request.fix then request.repair source
      else do
        let rendered ← (program.render request reports).mapError CheckError.fault
        pure (.reports rendered reports.length, [])
    return (outcome, wrong.map .wrongFix ++ warnings)

end CheckRequest

end TidyScript
