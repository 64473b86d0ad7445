import TidyScript.Command.Run

/-!
# The command line

Reads the files that a command line names, or the standard input, and carries it out.
-/

namespace TidyScript

/-- An error about the kind of a file, by its number, which may come negated. -/
def FileError.ofKind (code : UInt32) (error : IO.Error) : FileError :=
  if code = 20 || code = -20 then .notDirectory
  else if code = 21 || code = -21 then .isDirectory
  else .other (toString error)

/-- An error of reading a file. -/
def FileError.ofSystem (error : IO.Error) : FileError :=
  match error with
  | .noFileOrDirectory .. => .missing
  | .inappropriateType _ code _ => .ofKind code error
  | _ => .other (toString error)

/-- Bytes as text. -/
def textOfBytes (bytes : ByteArray) : Except FileError String :=
  match String.fromUTF8? bytes with
  | some text => .ok text
  | none => .error .notText

/-- Reads a file. -/
def readText (path : String) : IO (Except FileError String) := do
  match ← (IO.FS.readBinFile path).toBaseIO with
  | .ok bytes => return textOfBytes bytes
  | .error error => return .error (.ofSystem error)

/-- Reads the standard input. -/
def readInput : IO (Except FileError String) := do
  return textOfBytes (← (← IO.getStdin).readBinToEnd)

/-- Reads what a check needs. -/
def CheckArguments.load (arguments : CheckArguments) : IO Surroundings := do
  let paths := arguments.path.toList ++ arguments.config.toList
  let files ← paths.mapM fun path => return (path, ← readText path)
  let input ← if arguments.path.isNone then readInput else pure (.error .missing)
  return ⟨fun path => (files.lookup path).getD (.error .missing), input⟩

/-- Reads what a command line needs. -/
def surroundings (arguments : List String) : IO Surroundings :=
  match Task.ofArguments arguments with
  | .ok (.check arguments) => arguments.load
  | _ => return ⟨fun _ => .error .missing, .error .missing⟩

end TidyScript

/-- Carries out a command line. -/
def main (arguments : List String) : IO UInt32 := do
  let result := TidyScript.RunResult.ofArguments (← TidyScript.surroundings arguments) arguments
  IO.print result.stdout
  IO.eprint result.stderr
  return result.code
