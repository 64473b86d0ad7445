import TidyScript.Number.Decimal
import TidyScript.Number.Shortest
import TidyScript.Text.Blank
import TidyScript.Text.Quoted
import TidyScript.Text.Units

/-!
# Primitive values

The primitive values of scripts with their conversions and comparisons. Objects do not
occur: expressions are evaluated only over primitive values.
-/

namespace TidyScript

/-- A primitive value. -/
inductive Value where
  | undefined
  | null
  | boolean (value : Bool)
  | number (value : Float)
  | string (value : String)

namespace Value

/-! ## Conversions -/

/-- Does the value count as true in a test? -/
def isTruthy : Value → Bool
  | undefined => false
  | null => false
  | boolean b => b
  | number x => x != 0 && !x.isNaN
  | string s => !s.isEmpty

/-- Is it one of the two absent values? -/
def isNullish : Value → Bool
  | undefined => true
  | null => true
  | _ => false

/-- Is it a letter of ASCII that occurs in no decimal number? -/
def isForeignLetter (c : Char) : Bool :=
  c.isAlpha && c ≠ 'e' && c ≠ 'E'

/-- The number that a text stands for: blanks at the ends do not count, an empty text
is zero, `0x` marks hexadecimal digits, and only the exact word `Infinity` is
infinite. -/
def numberOfText (text : String) : Float :=
  let trimmed := Text.trim text.toList
  if trimmed.isEmpty then 0
  else if trimmed = "Infinity".toList || trimmed = "+Infinity".toList then 1 / 0
  else if trimmed = "-Infinity".toList then -1 / 0
  else if "0x".toList.isPrefixOf trimmed || "0X".toList.isPrefixOf trimmed then
    ((Number.readNatural? 16 (Number.capacity 64) (trimmed.drop 2)).map Float.ofNat).getD
      Number.nan
  else if trimmed.any isForeignLetter then Number.nan
  else (Number.readDecimal? trimmed).getD Number.nan

/-- The value as a number. -/
def toNumber : Value → Float
  | undefined => Number.nan
  | null => 0
  | boolean b => if b then 1 else 0
  | number x => x
  | string s => numberOfText s

/-- The value as a text. -/
def toText : Value → String
  | undefined => "undefined"
  | null => "null"
  | boolean b => if b then "true" else "false"
  | number x => Number.text x
  | string s => s

/-- The name of the type of the value, as `typeof` gives it. -/
def typeName : Value → String
  | undefined => "undefined"
  | null => "object"
  | boolean _ => "boolean"
  | number _ => "number"
  | string _ => "string"

/-- The value as it is written in a script. -/
def literal : Value → String
  | string s => Text.quote s
  | other => other.toText

/-! ## Comparisons -/

/-- Equality without conversion, `===`. -/
def strictEquals : Value → Value → Bool
  | undefined, undefined => true
  | null, null => true
  | boolean a, boolean b => a = b
  | number a, number b => a == b
  | string a, string b => a = b
  | _, _ => false

/-- Equality with conversion, `==`. The two absent values equal each other and nothing
else; a boolean is compared as a number, and so are a number and a text. -/
def looseEquals (a b : Value) : Bool :=
  if a.isNullish || b.isNullish then a.isNullish && b.isNullish
  else
    match a, b with
    | boolean _, _ => a.toNumber == b.toNumber
    | _, boolean _ => a.toNumber == b.toNumber
    | number _, string _ => a.toNumber == b.toNumber
    | string _, number _ => a.toNumber == b.toNumber
    | _, _ => a.strictEquals b

/-- The order `<`, which has no answer when a side is not a number. Two texts are
compared by their 16-bit units. -/
def lessThan? (a b : Value) : Option Bool :=
  match a, b with
  | string s, string t => some (Text.unitsBefore s t)
  | _, _ =>
    let x := a.toNumber
    let y := b.toNumber
    if x.isNaN || y.isNaN then none else some (x < y)

/-- The same value, where the non-number is the same as itself and all else is compared
without conversion. -/
def same (a b : Value) : Bool :=
  match a, b with
  | number x, number y => (x.isNaN && y.isNaN) || x == y
  | _, _ => a.strictEquals b

/-- Values to try expressions on: every kind that counts as false, one of each type that
counts as true, and the non-number. -/
def samples : List Value :=
  [undefined, null, boolean true, boolean false, number 0, number 1, number Number.nan, string "",
   string "a"]

end Value

end TidyScript
