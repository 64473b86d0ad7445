import TidyScript.Program.Place
import TidyScript.Program.Source
import TidyScript.Text.Reindent

/-!
# Moving statements

Statements are moved as text. Two things can go wrong where moved text comes to stand
behind another statement. That statement may end in an expression without a semicolon,
and text that starts with an opening bracket, a sign, a slash or a backtick would be
read as its continuation; then a semicolon is put in front. And the text keeps the
indentation of its old place, which is exchanged for that of the new one.
-/

namespace TidyScript

namespace Stmt

variable {α : Type}

/-- Does moving the statement to the enclosing scope change what names refer to? It
does for declarations bound to a block, and may for hidden statements. -/
def isScoped : Stmt α → Bool
  | declaration _ kind _ => kind.isBlockScoped
  | function _ _ _ _ => true
  | hidden _ => true
  | _ => false

/-- Is it the statement that consists of a semicolon only? -/
def isEmpty : Stmt α → Bool
  | empty _ => true
  | _ => false

end Stmt

namespace Program

/-- Is the last token of a statement the given punctuator? -/
def endsWith (program : Program) (s : Stmt Mark) (text : String) : Bool :=
  (program.tokenBefore? s.span.stop).any fun token => token.isPunct text

/-- Does the statement end in an expression without a semicolon behind it, so that
what follows may be read as a continuation of the expression? -/
def leftOpen (program : Program) : Stmt Mark → Bool
  | s@(.expression _ _) => !program.endsWith s ";"
  | s@(.returning _ (some _)) => !program.endsWith s ";"
  | s@(.throwing _ _) => !program.endsWith s ";"
  | s@(.declaration _ _ _) => !program.endsWith s ";"
  | s@(.branch _ _ consequent none) => !program.endsWith s ";" && program.leftOpen consequent
  | s@(.branch _ _ _ (some alternate)) => !program.endsWith s ";" && program.leftOpen alternate
  | s@(.forLoop _ _ _ _ body) => !program.endsWith s ";" && program.leftOpen body
  | s@(.forIn _ _ _ body) => !program.endsWith s ";" && program.leftOpen body
  | s@(.forOf _ _ _ body) => !program.endsWith s ";" && program.leftOpen body
  | s@(.whileLoop _ _ body) => !program.endsWith s ";" && program.leftOpen body
  | s@(.labeled _ _ body) => !program.endsWith s ";" && program.leftOpen body
  | s@(.hidden _) => !program.endsWith s ";" && !program.endsWith s "\x7d"
  | _ => false

/-- Can a text that starts with `c` continue an expression? -/
def continues (c : Char) : Bool :=
  c = '(' || c = '[' || c = '\x60' || c = '+' || c = '-' || c = '/'

/-- Text that is moved behind `previous`, with a semicolon in front if it would be
read as a continuation. -/
def separated (program : Program) (previous : Stmt Mark) (text : String) : String :=
  if program.leftOpen previous && text.toList.head?.any continues then ";" ++ text else text

end Program

end TidyScript
