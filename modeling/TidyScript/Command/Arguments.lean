import TidyScript.Command.Check

/-!
# Arguments of the command line

The command line names a task, `check` or the version. A check takes one path, two
options with a value and three flags, in any order, each at most once. Options are
written long or, some of them, by one letter. Letters can be joined behind one dash, and
the value of an option stands behind an equals sign, directly behind its letter, or in
the next argument. Behind two dashes everything is a path.
-/

namespace TidyScript

/-- A check as the command line asks for it. -/
structure CheckArguments where
  path : Option String := none
  fix : Bool := false
  format : Option ReportFormat := none
  config : Option String := none
  verify : Bool := false
  pretty : Bool := false

/-- A task of the command line. -/
inductive Task where
  | version
  | check (arguments : CheckArguments)

/-- Why a command line is not understood. -/
inductive UsageError where
  | noTask
  | unknownTask (name : String)
  | unknownSwitch
  /-- A path, a flag or an option is given twice. -/
  | repeated
  | missingValue
  /-- A flag is given a value. -/
  | surplusValue
  | badValue (value : String)
deriving DecidableEq, Repr

namespace CheckArguments

/-! ## Switches -/

/-- A switch that stands for itself. -/
inductive Flag where
  | fix
  | verify
  | pretty

/-- A switch that takes a value. -/
inductive Choice where
  | format
  | config

/-- A switch of a check. -/
inductive Switch where
  | flag (which : Flag)
  | choice (which : Choice)

/-- The switch with a long name. -/
def Switch.ofName? (name : String) : Option Switch :=
  [("fix", flag .fix), ("verify", flag .verify), ("pretty", flag .pretty),
    ("format", choice .format), ("config", choice .config)].lookup name

/-- The switch with a letter. -/
def Switch.ofLetter? (letter : Char) : Option Switch :=
  [('p', flag .pretty), ('f', choice .format), ('c', choice .config)].lookup letter

/-- Raises a flag that is still down. -/
def raise : Bool → Except UsageError Bool
  | false => return true
  | true => throw .repeated

/-- Fills a place that is still empty. -/
def fill {α : Type} (value : α) : Option α → Except UsageError (Option α)
  | none => return some value
  | some _ => throw .repeated

/-- A path must not be empty. -/
def pathOf (text : String) : Except UsageError String :=
  if text.isEmpty then throw (.badValue text) else return text

/-- The format with a name. -/
def formatOf (name : String) : Except UsageError ReportFormat :=
  match [("text", ReportFormat.text), ("json", ReportFormat.json)].lookup name with
  | some format => return format
  | none => throw (.badValue name)

/-- Sets a flag. -/
def setFlag (arguments : CheckArguments) : Flag → Except UsageError CheckArguments
  | .fix => do return { arguments with fix := ← raise arguments.fix }
  | .verify => do return { arguments with verify := ← raise arguments.verify }
  | .pretty => do return { arguments with pretty := ← raise arguments.pretty }

/-- Sets an option to a value. -/
def setChoice (arguments : CheckArguments) (value : String) :
    Choice → Except UsageError CheckArguments
  | .format => do
    return { arguments with format := ← fill (← formatOf value) arguments.format }
  | .config => do
    return { arguments with config := ← fill (← pathOf value) arguments.config }

/-- Sets the path. -/
def setPath (arguments : CheckArguments) (text : String) : Except UsageError CheckArguments := do
  return { arguments with path := ← fill (← pathOf text) arguments.path }

/-! ## Arguments -/

/-- What an argument leaves behind: the settled part, and the option whose value is to
be the next argument. -/
abbrev Step := CheckArguments × Option Choice

/-- Takes a long name behind its dashes. -/
def long (arguments : CheckArguments) (text : List Char) : Except UsageError Step :=
  let name := text.takeWhile (· ≠ '=')
  match Switch.ofName? (String.ofList name), text.drop name.length with
  | none, _ => throw .unknownSwitch
  | some (.flag _), _ :: _ => throw .surplusValue
  | some (.flag flag), [] => do return (← arguments.setFlag flag, none)
  | some (.choice choice), [] => return (arguments, some choice)
  | some (.choice choice), _ :: value => do
    return (← arguments.setChoice (String.ofList value) choice, none)

/-- Takes letters behind their dash. -/
def letters (arguments : CheckArguments) : List Char → Except UsageError Step
  | [] => return (arguments, none)
  | letter :: rest =>
    match Switch.ofLetter? letter with
    | none => throw .unknownSwitch
    | some (.flag flag) => do letters (← arguments.setFlag flag) rest
    | some (.choice choice) =>
      match rest with
      | [] => return (arguments, some choice)
      | '=' :: value => do return (← arguments.setChoice (String.ofList value) choice, none)
      | value => do return (← arguments.setChoice (String.ofList value) choice, none)

/-- Takes the arguments of a check. The value of an option must not look like a switch;
a single dash does not. -/
def read : Step → List String → Except UsageError CheckArguments
  | (arguments, none), [] => return arguments
  | (_, some _), [] => throw .missingValue
  | (arguments, none), text :: rest =>
    match text.toList with
    | ['-', '-'] => rest.foldlM setPath arguments
    | '-' :: '-' :: name => do read (← arguments.long name) rest
    | '-' :: letter :: more => do read (← arguments.letters (letter :: more)) rest
    | _ => do read (← arguments.setPath text, none) rest
  | (arguments, some choice), text :: rest =>
    match text.toList with
    | '-' :: _ :: _ => throw .missingValue
    | _ => do read (← arguments.setChoice text choice, none) rest

end CheckArguments

/-- The task that a command line names. -/
def Task.ofArguments : List String → Except UsageError Task
  | [] => throw .noTask
  | "check" :: rest => do return .check (← CheckArguments.read ({}, none) rest)
  | name :: _ =>
    if name = "--version" || name.startsWith "-V" then return .version
    else throw (.unknownTask name)

end TidyScript
