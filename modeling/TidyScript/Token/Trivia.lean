import TidyScript.Token.Basic
import TidyScript.Text.Blank
import TidyScript.Text.Cut

/-!
# White space and comments

Between two tokens stand white space, byte order marks and comments. They are
passed over, but two facts about them are kept: the comments, and whether there is
a line break. A line comment runs to the next line feed or carriage return. A block
comment counts as a line break when it contains a line feed.
-/

namespace TidyScript.Token

/-- The characters that end a line between tokens. -/
def isLineBreak (c : Char) : Bool :=
  c = '\n' || c = '\r' || c = '\u2028' || c = '\u2029'

/-- What was found between two tokens: the number of characters passed, the
comments among them, whether a line break is among them, and the offset of a block
comment that is never closed. -/
structure Trivia where
  length : Nat
  comments : List Comment
  lineBreak : Bool
  unclosed : Option Nat

namespace Trivia

/-- Nothing. -/
def none : Trivia :=
  ⟨0, [], false, .none⟩

/-- The same, behind `count` further characters. -/
def after (count : Nat) (lineBreak : Bool) (trivia : Trivia) : Trivia :=
  { trivia with length := count + trivia.length, lineBreak := lineBreak || trivia.lineBreak }

/-- The same, behind a comment. -/
def afterComment (block : Bool) (start : Nat) (text : List Char) (trivia : Trivia) : Trivia :=
  let comment : Comment := ⟨block, String.ofList text, ⟨start, start + Text.byteLength text⟩⟩
  { trivia.after text.length (block && text.contains '\n') with
    comments := comment :: trivia.comments }

end Trivia

/-- The number of characters up to and with the end mark of a block comment. -/
def blockCommentTail? : List Char → Option Nat
  | [] => none
  | c :: cs =>
    if c = '*' && cs.head? = some '/' then some 2
    else (blockCommentTail? cs).map (· + 1)

/-- The characters of a line comment. -/
def lineComment (cs : List Char) : List Char :=
  cs.takeWhile fun c => c ≠ '\n' && c ≠ '\r'

/-- Passes over white space and comments, where `offset` is the byte offset of
`cs`. -/
def trivia (offset : Nat) (cs : List Char) : Trivia :=
  match cs with
  | [] => .none
  | c :: rest =>
    if isLineBreak c then (trivia (offset + c.utf8Size) rest).after 1 true
    else if Text.isBlank c || c = '\ufeff' then
      (trivia (offset + c.utf8Size) rest).after 1 false
    else if c = '/' && rest.head? = some '/' then
      let text := c :: lineComment rest
      (trivia (offset + Text.byteLength text) (rest.drop (lineComment rest).length)).afterComment
        false offset text
    else if c = '/' && rest.head? = some '*' then
      match blockCommentTail? rest.tail with
      | some tail =>
        let text := c :: rest.take (1 + tail)
        (trivia (offset + Text.byteLength text) (rest.drop (1 + tail))).afterComment
          true offset text
      | none => { Trivia.none with unclosed := some offset }
    else .none
termination_by cs.length

end TidyScript.Token
