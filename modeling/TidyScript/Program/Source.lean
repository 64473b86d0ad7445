import TidyScript.Program.Basic
import TidyScript.Text.Line
import TidyScript.Token.Search

/-!
# Source text and tokens of a program

The text behind spans and nodes, and the tokens and comments at a place. Tokens are
found by binary search, since they stand in the order of the source.
-/

namespace TidyScript.Program

/-- The text of a span. -/
def text (program : Program) (span : Span) : Except Fault String :=
  Text.cut program.source span

/-- The text of an expression without its parentheses. -/
def exprText (program : Program) (e : Expr Mark) : Except Fault String :=
  program.text e.span

/-- The text of an expression with its parentheses. -/
def exprSource (program : Program) (e : Expr Mark) : Except Fault String :=
  program.text e.outer

/-- The text of a statement. -/
def stmtText (program : Program) (s : Stmt Mark) : Except Fault String :=
  program.text s.span

/-- The tokens that lie inside a span. -/
def tokensIn (program : Program) (span : Span) : List Token :=
  let first := Token.firstIndex (fun token => !(token.span.start < span.start)) program.tokens
  let last := Token.firstIndex (fun token => !(token.span.stop ≤ span.stop)) program.tokens
  (program.tokens.extract first last).toList

/-- The first token that starts at or behind an offset. -/
def tokenFrom? (program : Program) (offset : Nat) : Option Token :=
  program.tokens[Token.firstIndex (fun token => !(token.span.start < offset)) program.tokens]?

/-- The last token that ends at or before an offset. -/
def tokenBefore? (program : Program) (offset : Nat) : Option Token :=
  match Token.firstIndex (fun token => !(token.span.stop ≤ offset)) program.tokens with
  | 0 => none
  | index + 1 => program.tokens[index]?

/-- Does a comment lie inside a span? -/
def hasCommentsIn (program : Program) (span : Span) : Bool :=
  program.comments.any fun comment => span.contains comment.span

/-- Line and column of an offset. -/
def position (program : Program) (offset : Nat) : Except Fault Text.Position :=
  Text.positionOf program.source offset

/-- The offset at which the line of an offset starts. -/
def lineStart (program : Program) (offset : Nat) : Nat :=
  Text.lineStart program.source offset

/-- The indentation of the line of an offset. -/
def indentAt (program : Program) (offset : Nat) : String :=
  Text.indentAt program.source offset

/-- Do two offsets lie on one line? -/
def sameLine (program : Program) (a b : Nat) : Bool :=
  Text.sameLine program.source a b

end TidyScript.Program
