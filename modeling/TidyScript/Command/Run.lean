import TidyScript.Command.Arguments
import TidyScript.Settings.Text

/-!
# Running a command line

A run reads the source, then the settings, and carries out its task. The files are a
function from paths to contents, so a run is a function of its surroundings. A run ends
with code zero when nothing is left to report, with two when the command line is not
understood, and with one otherwise.
-/

namespace TidyScript

/-- Why a file cannot be read. -/
inductive FileError where
  | missing
  | isDirectory
  | notDirectory
  | notText
  | other (message : String)

/-- The wording of an error. -/
def FileError.message : FileError → String
  | missing => "No such file or directory (os error 2)"
  | notDirectory => "Not a directory (os error 20)"
  | isDirectory => "Is a directory (os error 21)"
  | notText => "stream did not contain valid UTF-8"
  | other message => message

/-- The wording of a defect of a settings text. -/
def Json.Defect.message : Json.Defect → String
  | malformed => "not JSON"
  | mismatch => "unexpected value"
  | truncated => "unexpected end"

/-- Why a run fails. -/
inductive RunError where
  | usage (error : UsageError)
  | source (error : FileError)
  | configFile (path : String) (error : FileError)
  | config (defect : Json.Defect)
  | check (error : CheckError)

namespace RunError

/-- The wording of an error. -/
def message : RunError → String
  | usage _ => "usage: logic-lint check [PATH] [--fix] [--format text|json] [--config FILE] " ++
      "[--verify] [--pretty]"
  | source error => "IO error: " ++ error.message
  | configFile path error =>
    "Config error: cannot read config file " ++ path ++ ": " ++ error.message
  | config defect => "Config error: invalid config: " ++ defect.message
  | check error => error.message

/-- The code with which a failed run ends. -/
def code : RunError → UInt32
  | usage _ => 2
  | _ => 1

end RunError

/-- What a run reads. -/
structure Surroundings where
  /-- The contents of files by path. -/
  file : String → Except FileError String
  /-- The contents of the standard input. -/
  input : Except FileError String

/-- What a run leaves behind. -/
structure RunResult where
  code : UInt32
  stdout : String
  stderr : String

/-- The name and the version of the program. -/
def versionLine : String :=
  "logic-lint 0.1.0\n"

namespace CheckArguments

/-- The source with the name it has in reports. -/
def source (arguments : CheckArguments) (surroundings : Surroundings) :
    Except RunError (String × String) :=
  match arguments.path with
  | some path => do return (path, ← (surroundings.file path).mapError .source)
  | none => do return ("<stdin>", ← surroundings.input.mapError .source)

/-- The settings. -/
def settings (arguments : CheckArguments) (surroundings : Surroundings) :
    Except RunError Settings :=
  match arguments.config with
  | none => return {}
  | some path => do
    let text ← (surroundings.file path).mapError (.configFile path)
    (Settings.ofText text).mapError .config

/-- Carries out a check that the command line asks for. -/
def run (arguments : CheckArguments) (surroundings : Surroundings) :
    Except RunError CheckOutcome := do
  let (path, source) ← arguments.source surroundings
  let request : CheckRequest :=
    { source := some source, path, fix := arguments.fix,
      format := arguments.format.getD .text, pretty := arguments.pretty,
      verify := arguments.verify, settings := ← arguments.settings surroundings }
  let (outcome, _) ← request.run.mapError .check
  return outcome

end CheckArguments

namespace RunResult

/-- What a check leaves behind. -/
def ofOutcome (outcome : CheckOutcome) : RunResult :=
  ⟨if outcome.isClean then 0 else 1, outcome.output, ""⟩

/-- What a failed run leaves behind. -/
def ofError (error : RunError) : RunResult :=
  ⟨error.code, "", error.message ++ "\n"⟩

/-- Carries out a task. -/
def ofTask (surroundings : Surroundings) : Task → RunResult
  | .version => ⟨0, versionLine, ""⟩
  | .check arguments =>
    match arguments.run surroundings with
    | .ok outcome => ofOutcome outcome
    | .error error => ofError error

/-- Carries out a command line. -/
def ofArguments (surroundings : Surroundings) (arguments : List String) : RunResult :=
  match Task.ofArguments arguments with
  | .ok task => ofTask surroundings task
  | .error error => ofError (.usage error)

end RunResult

end TidyScript
