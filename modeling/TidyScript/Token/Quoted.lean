import TidyScript.Token.Scan
import TidyScript.Number.Natural

/-!
# String literals

A string literal runs from a quote to the next quote of the same kind. A raw line
feed or carriage return ends it too early. A backslash starts an escape: one
letter for a control character, `\x` and two hexadecimal digits, `\u` and four, or
`\u` and any number of them in braces. An escape that is not of these forms stands
for the character after the backslash, and a line break after the backslash stands
for nothing.
-/

namespace TidyScript.Token

/-- An escape, seen from behind its first character: how many more characters it
takes, and what it denotes. -/
structure Escape where
  length : Nat
  value : List Char

namespace Escape

/-- The character with the given code point. -/
def char? (code : Nat) : Option Char :=
  if h : code.isValidChar then some (Char.ofNatAux code h) else none

/-- An escape of exactly `count` hexadecimal digits after the letter `letter`.
Without them only the letter is left. -/
def fixed (letter : Char) (count : Nat) (cs : List Char) : Escape :=
  let digits := cs.take count
  if digits.length = count && digits.all Number.isHexDigit then
    let code := (Number.ofDigits? 16 0 digits).bind char?
    ⟨count, [code.getD letter]⟩
  else ⟨0, [letter]⟩

/-- An escape of hexadecimal digits in braces, seen from behind the opening
brace, which is passed in any case. Digits that form no 32-bit number, and a brace
that is never closed, leave only the letter; so does a number that is not a code
point, but its digits are passed. -/
def braced (letter : Char) (cs : List Char) : Escape :=
  let digits := cs.takeWhile (· ≠ '\x7d')
  if digits.length < cs.length then
    match Number.readNatural? 16 (Number.capacity 32) digits with
    | some code => ⟨digits.length + 2, [(char? code).getD letter]⟩
    | none => ⟨1, [letter]⟩
  else ⟨1, [letter]⟩

/-- The escape whose first character after the backslash is `c`. -/
def read (c : Char) (cs : List Char) : Escape :=
  match c with
  | 'n' => ⟨0, ['\n']⟩
  | 't' => ⟨0, ['\t']⟩
  | 'r' => ⟨0, ['\r']⟩
  | 'b' => ⟨0, ['\x08']⟩
  | 'f' => ⟨0, ['\x0c']⟩
  | 'v' => ⟨0, ['\x0b']⟩
  | '0' => if cs.head?.any Char.isDigit then ⟨0, ['0']⟩ else ⟨0, ['\x00']⟩
  | 'x' => fixed 'x' 2 cs
  | 'u' =>
    match cs with
    | '\x7b' :: rest => braced 'u' rest
    | _ => fixed 'u' 4 cs
  | '\r' => if cs.head? = some '\n' then ⟨1, []⟩ else ⟨0, []⟩
  | '\n' => ⟨0, []⟩
  | '\u2028' => ⟨0, []⟩
  | '\u2029' => ⟨0, []⟩
  | _ => ⟨0, [c]⟩

end Escape

/-- The rest of a string literal behind its opening quote, and the text it
denotes. The literal is reported to start at byte offset `start`. -/
def quotedTail (quote : Char) (start : Nat) (cs : List Char) : Scan (List Char) :=
  match cs with
  | [] => .fail 0 (.unterminatedString start)
  | c :: rest =>
    if c = quote then .done 1 []
    else if c = '\n' || c = '\r' then .fail 0 (.unterminatedString start)
    else if c = '\\' then
      match rest with
      | [] => .fail 1 (.unterminatedString start)
      | first :: behind =>
        let escape := Escape.read first behind
        ((quotedTail quote start (behind.drop escape.length)).map (escape.value ++ ·)).after
          (2 + escape.length)
    else ((quotedTail quote start rest).map (c :: ·)).after 1
termination_by cs.length

/-- A string literal, from its opening quote on. -/
def quoted (quote : Char) (start : Nat) (cs : List Char) : Scan String :=
  ((quotedTail quote start cs.tail).map String.ofList).after 1

end TidyScript.Token
