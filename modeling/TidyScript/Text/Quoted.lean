import TidyScript.Text.Joining
import TidyScript.Text.Unprintable

/-!
# Quoted text

A text in double quotes, written so that everything in it can be seen. Tabs, line
feeds, carriage returns, the null character, quotes and backslashes get a backslash;
characters that cannot be seen on their own, or that would join the character before
them, are written by their code point in braces.
-/

namespace TidyScript.Text

/-- A character by its code point, in hexadecimal. -/
def codePoint (c : Char) : List Char :=
  "\\u\x7b".toList ++ Nat.toDigits 16 c.toNat ++ ['\x7d']

/-- A character as it stands in a quoted text. -/
def quoteChar (c : Char) : List Char :=
  if c = '\x00' then "\\0".toList
  else if c = '\t' then "\\t".toList
  else if c = '\r' then "\\r".toList
  else if c = '\n' then "\\n".toList
  else if c = '"' then "\\\"".toList
  else if c = '\\' then "\\\\".toList
  else if isJoining c || isUnprintable c then codePoint c
  else [c]

/-- A text in double quotes. -/
def quote (text : String) : String :=
  String.ofList ('"' :: text.toList.flatMap quoteChar ++ ['"'])

end TidyScript.Text
