import TidyScript.Text.Span

/-!
# Tokens and comments

A script is read as a row of tokens. A token keeps its text as written, where it
stands, and whether a line break separates it from the token before it, because
the grammar asks for that. A string token also carries the text it denotes, so
that `'a'` and `"a"` can be told to mean the same. Comments are kept beside the
tokens and never among them.
-/

namespace TidyScript

/-- The lexical category of a token. -/
inductive TokenKind where
  /-- A name, including contextual words such as `of` or `async`. -/
  | identifier
  /-- A reserved word. -/
  | keyword
  | number
  /-- A quoted string, with the text it denotes. -/
  | string (value : String)
  /-- A whole template literal, substitutions included. -/
  | template
  /-- A regular expression with its flags. -/
  | regex
  /-- An operator or a delimiter. -/
  | punctuator
  /-- The end of the source. -/
  | eof
deriving DecidableEq, Repr

/-- A lexical token. -/
structure Token where
  kind : TokenKind
  /-- The token as written. -/
  text : String
  span : Span
  /-- Does a line break stand between the token before and this one? -/
  newlineBefore : Bool
deriving DecidableEq, Repr

namespace Token

/-- Is this the punctuator written `text`? -/
def isPunct (token : Token) (text : String) : Bool :=
  token.kind = .punctuator && token.text = text

/-- Is this the reserved word `text`? -/
def isKeyword (token : Token) (text : String) : Bool :=
  token.kind = .keyword && token.text = text

/-- Is this the name `text`? -/
def isIdentifier (token : Token) (text : String) : Bool :=
  token.kind = .identifier && token.text = text

/-- What the token is compared by: the denoted text of a string, and the written
text of any other token. -/
def comparable (token : Token) : String :=
  match token.kind with
  | .string value => value
  | _ => token.text

/-- Do two tokens mean the same? Strings are compared by what they denote, other
tokens by category and text. -/
def same (a b : Token) : Bool :=
  match a.kind, b.kind with
  | .string x, .string y => x = y
  | .string _, _ => false
  | _, .string _ => false
  | x, y => x = y && a.text = b.text

/-- Do two rows of tokens mean the same, token by token? -/
def sameRow (a b : List Token) : Bool :=
  a.length = b.length && (a.zip b).all fun pair => same pair.1 pair.2

end Token

/-- A comment, with its delimiters. -/
structure Comment where
  /-- Is it written `/* … */`? -/
  block : Bool
  text : String
  span : Span
deriving DecidableEq, Repr

/-- What can be wrong with the characters of a source. Each error names the byte
offset where the offending literal or character starts. -/
inductive LexError where
  | unterminatedString (start : Nat)
  | unterminatedTemplate (start : Nat)
  | unterminatedComment (start : Nat)
  | unterminatedRegex (start : Nat)
  | unexpectedChar (char : Char) (offset : Nat)
deriving DecidableEq, Repr

/-- The wording of a lexical error. -/
def LexError.message : LexError → String
  | .unterminatedString start =>
    "unterminated string literal starting at offset " ++ toString start
  | .unterminatedTemplate start =>
    "unterminated template literal starting at offset " ++ toString start
  | .unterminatedComment start =>
    "unterminated block comment starting at offset " ++ toString start
  | .unterminatedRegex start =>
    "unterminated regular expression starting at offset " ++ toString start
  | .unexpectedChar char offset =>
    "unexpected character '" ++ char.toString ++ "' at offset " ++ toString offset

end TidyScript
