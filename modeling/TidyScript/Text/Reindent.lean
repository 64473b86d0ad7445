/-!
# Moving text to another indentation

A piece of source that spans several lines carries the indentation of the place
it was written at. When it moves, that indentation is exchanged on every line
after the first, whose indentation is not part of the piece. A line that does not
begin with the old indentation stays as it is.

When the old indentation is empty, the new one is inserted at every line break
position, and that includes the end of the first line.
-/

namespace TidyScript.Text

/-- The pieces of a text between its line feeds. -/
def splitLines : List Char → List (List Char)
  | [] => [[]]
  | c :: cs =>
    if c = '\n' then [] :: splitLines cs
    else
      match splitLines cs with
      | [] => [[c]]
      | line :: lines => (c :: line) :: lines

/-- Puts a line feed between two neighbours. -/
def joinLines : List (List Char) → List Char
  | [] => []
  | [line] => line
  | line :: lines => line ++ '\n' :: joinLines lines

/-- Exchanges the leading `old` of a line for `new`. -/
def exchangeLead (old new line : List Char) : List Char :=
  if old.isPrefixOf line then new ++ line.drop old.length else line

/-- Exchanges the indentation `old` for `new` on every line after the first. -/
def reindent (text old new : String) : String :=
  if old = new then text
  else
    let first := text.toList.takeWhile (· ≠ '\n')
    let rest := text.toList.dropWhile (· ≠ '\n')
    if rest.isEmpty then text
    else
      let lines := (splitLines rest).map (exchangeLead old.toList new.toList)
      String.ofList (first ++ joinLines lines)

end TidyScript.Text
