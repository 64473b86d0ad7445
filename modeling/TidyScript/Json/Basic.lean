/-!
# JSON text

Values of the JSON format with the numbers that reports need, which are natural, and
objects whose fields keep their order. They are written in two layouts: compact,
without any space, and indented by two spaces a level, where empty lists and objects
stay on one line. Texts keep every character but quotes, backslashes and controls.
-/

namespace TidyScript

/-- A JSON value. -/
inductive Json where
  | null
  | boolean (value : Bool)
  | number (value : Nat)
  | string (value : String)
  | array (items : List Json)
  | object (fields : List (String × Json))

namespace Json

/-- A control character by its code, in four hexadecimal digits. -/
def codeEscape (c : Char) : List Char :=
  let digits := Nat.toDigits 16 c.toNat
  "\\u".toList ++ List.replicate (4 - digits.length) '0' ++ digits

/-- A character inside a JSON text. -/
def escapeChar (c : Char) : List Char :=
  if c = '"' then "\\\"".toList
  else if c = '\\' then "\\\\".toList
  else if c = '\x08' then "\\b".toList
  else if c = '\x0c' then "\\f".toList
  else if c = '\n' then "\\n".toList
  else if c = '\r' then "\\r".toList
  else if c = '\t' then "\\t".toList
  else if c.toNat < 0x20 then codeEscape c
  else [c]

/-- A JSON text with its quotes. -/
def quoteText (text : String) : String :=
  String.ofList ('"' :: text.toList.flatMap escapeChar ++ ['"'])

/-- A value without parts. -/
def scalar : Json → String
  | null => "null"
  | boolean b => if b then "true" else "false"
  | number n => toString n
  | string s => quoteText s
  | array _ => "[]"
  | object _ => "\x7b\x7d"

mutual

/-- The compact layout. -/
def compact : Json → String
  | array items => "[" ++ ",".intercalate (compactItems items) ++ "]"
  | object fields => "\x7b" ++ ",".intercalate (compactFields fields) ++ "\x7d"
  | other => other.scalar

/-- The compact layout of list items. -/
def compactItems : List Json → List String
  | [] => []
  | item :: items => compact item :: compactItems items

/-- The compact layout of fields. -/
def compactFields : List (String × Json) → List String
  | [] => []
  | (name, value) :: fields => (quoteText name ++ ":" ++ compact value) :: compactFields fields

end

/-- The start of a line at a level of indentation. -/
def newLine (level : Nat) : String :=
  String.ofList ('\n' :: List.replicate (2 * level) ' ')

/-- Parts on lines of their own, one level in, between two delimiters. -/
def lines (level : Nat) (left right : String) (parts : List String) : String :=
  left ++ newLine (level + 1) ++ ("," ++ newLine (level + 1)).intercalate parts ++
    newLine level ++ right

mutual

/-- The indented layout at a level. -/
def indented (level : Nat) : Json → String
  | array (item :: items) => lines level "[" "]" (indentedItems (level + 1) (item :: items))
  | object (field :: fields) =>
    lines level "\x7b" "\x7d" (indentedFields (level + 1) (field :: fields))
  | other => other.scalar

/-- The indented layout of list items. -/
def indentedItems (level : Nat) : List Json → List String
  | [] => []
  | item :: items => indented level item :: indentedItems level items

/-- The indented layout of fields. -/
def indentedFields (level : Nat) : List (String × Json) → List String
  | [] => []
  | (name, value) :: fields =>
    (quoteText name ++ ": " ++ indented level value) :: indentedFields level fields

end

/-- The indented layout. -/
def pretty (value : Json) : String :=
  indented 0 value

end Json

end TidyScript
