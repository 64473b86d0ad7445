import TidyScript.Text.Cut

/-!
# Lines and columns

A line ends at a line feed. `lineAt` finds the line that holds a byte offset: it
walks the text once and keeps the last line start that is not past the offset.
From it come the position of an offset as a line and column, both counted from
one and columns counted in characters, and the indentation of a line.
-/

namespace TidyScript.Text

/-- A line of a text: its number, the offset of its first byte, and the text
from there to the end of the source. -/
structure Line where
  number : Nat
  start : Nat
  rest : List Char

/-- Walks on from `offset`, where `cs` is left to read, and keeps the last line
that starts at or before `target`. -/
def lineFrom (target offset : Nat) (current : Line) : List Char → Line
  | [] => current
  | c :: cs =>
    let next := offset + c.utf8Size
    if c = '\n' && next ≤ target then lineFrom target next ⟨current.number + 1, next, cs⟩ cs
    else lineFrom target next current cs

/-- The line that holds the byte offset. -/
def lineAt (source : String) (offset : Nat) : Line :=
  lineFrom offset 0 ⟨1, 0, source.toList⟩ source.toList

/-- The offset at which the line of `offset` starts. -/
def lineStart (source : String) (offset : Nat) : Nat :=
  (lineAt source offset).start

/-- Do two offsets lie on one line? -/
def sameLine (source : String) (a b : Nat) : Bool :=
  lineStart source a == lineStart source b

/-- A place for people: line and column, both counted from one. -/
structure Position where
  line : Nat
  column : Nat
deriving DecidableEq, Repr

/-- The position of a byte offset. An offset past the end of the text stands
for its end. -/
def positionOf (source : String) (offset : Nat) : Except Fault Position :=
  let line := lineAt source offset
  let stop := min offset (byteLength source.toList)
  match splitAtByte? (stop - line.start) line.rest with
  | some before => .ok ⟨line.number, before.1.length + 1⟩
  | none => .error (.badCut ⟨line.start, stop⟩)

/-- Spaces and tabs, which make up indentation. -/
def isIndent (c : Char) : Bool :=
  c = ' ' || c = '\t'

/-- The indentation of the line that holds the byte offset. -/
def indentAt (source : String) (offset : Nat) : String :=
  String.ofList ((lineAt source offset).rest.takeWhile isIndent)

end TidyScript.Text
