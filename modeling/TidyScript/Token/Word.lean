import TidyScript.Token.Basic
import TidyScript.Text.Alphabetic
import TidyScript.Text.Numeric

/-!
# Words

A word starts with an alphabetic character, an underscore or a dollar sign and
goes on with alphabetic and numeric characters, these two signs and the two
zero-width joiners. A number sign may stand in front, for private names. A word is
a keyword if it is reserved, and a name otherwise.
-/

namespace TidyScript.Token

/-- Can a word start with `c`? -/
def isWordStart (c : Char) : Bool :=
  Text.isAlphabetic c || c = '_' || c = '$' || c = '#'

/-- Can a word go on with `c`? -/
def isWordPart (c : Char) : Bool :=
  Text.isAlphabetic c || Text.isNumeric c || c = '_' || c = '$' || c = '\u200c' || c = '\u200d'

/-- The number of characters of a word after its first one. -/
def wordTail (cs : List Char) : Nat :=
  (cs.takeWhile isWordPart).length

/-- The reserved words. -/
def keywords : List String :=
  ["break", "case", "catch", "class", "const", "continue", "debugger", "default", "delete", "do",
   "else", "export", "extends", "false", "finally", "for", "function", "if", "import", "in",
   "instanceof", "let", "new", "null", "return", "super", "switch", "this", "throw", "true",
   "try", "typeof", "var", "void", "while", "with", "yield"]

/-- The category of a word. -/
def wordKind (text : String) : TokenKind :=
  if keywords.contains text then .keyword else .identifier

/-- The keywords after which a slash opens a regular expression. -/
def keywordsBeforeRegex : List String :=
  ["return", "typeof", "instanceof", "in", "new", "delete", "void", "throw", "case", "do",
   "else", "yield"]

end TidyScript.Token
