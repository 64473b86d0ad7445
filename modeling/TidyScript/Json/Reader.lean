import TidyScript.Number.Natural

/-!
# Reading JSON of a known shape

A reader takes characters from the front of a text and builds a value of a type it
knows in advance; nothing is read into a general JSON value first. A text can therefore
be refused for three reasons, and the reason that comes first in the text counts: it is
not JSON, it is JSON of another shape, or it ends too early.
-/

namespace TidyScript.Json

/-- Why a text is refused. -/
inductive Defect where
  /-- The text is not JSON. -/
  | malformed
  /-- The text is JSON, but not of the shape that is read. -/
  | mismatch
  /-- The text ends too early. -/
  | truncated
deriving DecidableEq, Repr

/-- A reader: takes characters from the front, or refuses. -/
abbrev Reader (α : Type) := StateT (List Char) (Except Defect) α

namespace Reader

variable {α : Type}

/-- Is it space between the parts of a JSON text? -/
def isSpace (c : Char) : Bool :=
  c = ' ' || c = '\n' || c = '\t' || c = '\r'

/-- The next character, which is not taken. -/
def peek : Reader (Option Char) := do
  return (← get).head?

/-- Takes one character. -/
def skip : Reader Unit :=
  modify List.tail

/-- Takes one character and gives it. -/
def next : Reader (Option Char) := do
  let c ← peek
  skip
  return c

/-- Takes space, and gives the next character, which is not taken. -/
def peekBehindSpace : Reader (Option Char) := do
  modify fun cs => cs.dropWhile isSpace
  peek

/-- Takes the rest of a word. -/
def word : List Char → Reader Unit
  | [] => return
  | c :: cs => do
    match ← next with
    | none => throw .truncated
    | some found => if found = c then word cs else throw .malformed

/-! ## Texts -/

/-- Takes four hexadecimal digits. A text that ends within four bytes is too short. -/
def hexQuad : Reader Nat := do
  let digits := (← get).take 4
  if (String.ofList digits).utf8ByteSize < 4 then throw .truncated
  if digits.length < 4 then throw .malformed
  match Number.ofDigits? 16 0 digits with
  | some code =>
    modify fun cs => cs.drop 4
    return code
  | none => throw .malformed

/-- Takes a code point behind the letter `u`: one unit, or a high unit and a low one.
A unit of a pair that stands alone is refused. -/
def unicodeEscape : Reader Char := do
  let high ← hexQuad
  if 0xDC00 ≤ high && high < 0xE000 then throw .malformed
  if 0xD800 ≤ high && high < 0xDC00 then
    word ['\\', 'u']
    let low ← hexQuad
    if 0xDC00 ≤ low && low < 0xE000 then
      return Char.ofNat (0x10000 + (high - 0xD800) * 0x400 + (low - 0xDC00))
    else throw .malformed
  else return Char.ofNat high

/-- Takes an escape behind its backslash. -/
def escape : Reader Char := do
  match ← next with
  | none => throw .truncated
  | some '"' => return '"'
  | some '\\' => return '\\'
  | some '/' => return '/'
  | some 'b' => return '\x08'
  | some 'f' => return '\x0c'
  | some 'n' => return '\n'
  | some 'r' => return '\r'
  | some 't' => return '\t'
  | some 'u' => unicodeEscape
  | some _ => throw .malformed

/-- Takes the rest of a text behind its opening quote. Each step takes a character, so
the characters that are left bound the steps. -/
def textUpTo : (bound : Nat) → Reader (List Char)
  | 0 => throw .truncated
  | bound + 1 => do
    match ← next with
    | none => throw .truncated
    | some '"' => return []
    | some '\\' =>
      let c ← escape
      return c :: (← textUpTo bound)
    | some c =>
      if c.toNat < 0x20 then throw .malformed
      return c :: (← textUpTo bound)

/-- Takes the rest of a text behind its opening quote. -/
def textTail : Reader String := do
  return String.ofList (← textUpTo ((← get).length + 1))

/-! ## Numbers -/

/-- A number as far as its shape decides: a natural number below `2 ^ 64`, or another
one. -/
inductive Numeral where
  | natural (value : Nat)
  | other

/-- Takes digits. -/
def digits : Reader (List Char) := do
  let found := (← get).takeWhile Char.isDigit
  modify fun cs => cs.drop found.length
  return found

/-- Takes digits, of which there has to be one. -/
def someDigits : Reader (List Char) := do
  let found ← digits
  if found.isEmpty then
    match ← peek with
    | none => throw .truncated
    | some _ => throw .malformed
  return found

/-- The number that decimal digits write. -/
def valueOf (digits : List Char) : Nat :=
  (Number.ofDigits? 10 0 digits).getD 0

/-- The leading digits whose value stays below `2 ^ 64`. -/
def fitting (value : Nat) : List Char → List Char
  | [] => []
  | c :: cs =>
    let longer := value * 10 + valueOf [c]
    if longer < Number.capacity 64 then c :: fitting longer cs else []

/-- Is `significand · 10 ^ exponent` beyond the largest double? Where the power of ten
is itself a double, the product of the two doubles decides. -/
def isHuge (significand : Nat) (exponent : Int) : Bool :=
  if significand = 0 || exponent < 0 then false
  else if exponent > 308 then true
  else (Float.ofNat significand * Float.ofScientific 1 false exponent.toNat).isInf

/-- Takes the exponent of a number behind its letter. A positive exponent that takes
more than 31 bits is out of range, unless all digits of the number are zero. -/
def exponentTail (significand : Nat) (shift : Int) : Reader Numeral := do
  let sign ← peek
  if sign = some '+' || sign = some '-' then skip
  let value := valueOf (← someDigits)
  let exponent : Int := if sign = some '-' then shift - value else shift + value
  if isHuge significand exponent then throw .malformed
  return .other

/-- Takes the fraction and the exponent of a number whose whole part is `whole`. Digits
that no longer fit in 64 bits count only by their number. -/
def numberTail (negative : Bool) (whole : List Char) : Reader Numeral := do
  let kept := fitting 0 whole
  let dropped := whole.length - kept.length
  match ← peek with
  | some '.' =>
    skip
    let fraction ← someDigits
    let keptFraction := fitting (valueOf kept) fraction
    let significand := valueOf (kept ++ keptFraction)
    let shift : Int := dropped - keptFraction.length
    let mark ← peek
    if mark = some 'e' || mark = some 'E' then
      skip
      exponentTail significand shift
    else if isHuge significand shift then throw .malformed
    else return .other
  | mark =>
    if mark = some 'e' || mark = some 'E' then
      skip
      exponentTail (valueOf kept) dropped
    else if dropped = 0 then
      return if negative then .other else .natural (valueOf kept)
    else if isHuge (valueOf kept) dropped then throw .malformed
    else return .other

/-- Takes a number behind its sign. A leading zero stands alone. -/
def number (negative : Bool) : Reader Numeral := do
  match ← next with
  | none => throw .truncated
  | some '0' =>
    match ← peek with
    | some c => if c.isDigit then throw .malformed else numberTail negative ['0']
    | none => numberTail negative ['0']
  | some c =>
    if c.isDigit then
      let others ← digits
      numberTail negative (c :: others)
    else throw .malformed

/-! ## Values of a known shape -/

/-- Takes the value that comes next, whatever its shape. Of a list or an object nothing
is taken, since the first character shows the shape. -/
def anyValue : Reader Unit := do
  match ← peek with
  | none => throw .truncated
  | some 'n' => word "null".toList
  | some 't' => word "true".toList
  | some 'f' => word "false".toList
  | some '[' => return
  | some '\x7b' => return
  | some '-' =>
    skip
    let _ ← number true
  | some '"' =>
    skip
    let _ ← textTail
  | some c =>
    if c.isDigit then
      let _ ← number false
    else throw .malformed

/-- Refuses the value that comes next because of its shape, unless it is no JSON value
at all. -/
def refuse : Reader α := do
  anyValue
  throw .mismatch

/-- Takes a truth value. -/
def boolean : Reader Bool := do
  match ← peekBehindSpace with
  | none => throw .truncated
  | some 't' =>
    word "true".toList
    return true
  | some 'f' =>
    word "false".toList
    return false
  | some _ => refuse

/-- Takes a natural number below `2 ^ 64`. -/
def natural : Reader Nat := do
  match ← peekBehindSpace with
  | none => throw .truncated
  | some c =>
    if c = '-' then
      skip
      let _ ← number true
      throw .mismatch
    else if c.isDigit then
      match ← number false with
      | .natural value => return value
      | .other => throw .mismatch
    else refuse

/-! ## Records -/

/-- A record that is read field by field: the names of its fields in order, and for each
a reader that fills it in. -/
abbrev Fields (α : Type) := List (String × (α → Reader α))

/-- Takes the next field name of an object, or its closing brace. -/
def fieldName (first : Bool) : Reader (Option String) := do
  match ← peekBehindSpace with
  | none => throw .truncated
  | some '\x7d' =>
    skip
    return none
  | some c =>
    let start ←
      if first then pure (some c)
      else if c = ',' then
        skip
        peekBehindSpace
      else throw .malformed
    match start with
    | none => throw .truncated
    | some '"' =>
      skip
      return some (← textTail)
    | some _ => throw .malformed

/-- Takes the colon behind a field name. -/
def colon : Reader Unit := do
  match ← peekBehindSpace with
  | none => throw .truncated
  | some ':' => skip
  | some _ => throw .malformed

/-- Takes the fields of an object that are left to read. A field that the record does
not have, or no longer has, is refused at its name. Each field removes one from those
left, so there are at most as many steps as fields. -/
def objectFields (first : Bool) (left : Fields α) (value : α) : (bound : Nat) → Reader α
  | 0 => throw .mismatch
  | bound + 1 => do
    match ← fieldName first with
    | none => return value
    | some name =>
      match left.lookup name with
      | none => throw .mismatch
      | some fill =>
        colon
        let value ← fill value
        objectFields false (left.filter fun field => field.1 ≠ name) value bound

/-- Takes the end of a list in which all fields of a record have been read. -/
def listEnd : Reader Unit := do
  match ← peekBehindSpace with
  | none => throw .truncated
  | some ']' => skip
  | some _ => throw .malformed

/-- Takes the fields of a record from a list, in order. A list may end before all
fields have been read. -/
def listFields (first : Bool) (value : α) : Fields α → Reader α
  | [] => do
    listEnd
    return value
  | (_, fill) :: left => do
    match ← peekBehindSpace with
    | none => throw .truncated
    | some ']' =>
      skip
      return value
    | some c =>
      if !first then
        if c = ',' then
          skip
          match ← peekBehindSpace with
          | none => throw .truncated
          | some ']' => throw .malformed
          | some _ => pure ()
        else throw .malformed
      let value ← fill value
      listFields false value left

/-- Takes a record, written as an object or as a list. Fields that are not written keep
their value in `initial`. -/
def record (fields : Fields α) (initial : α) : Reader α := do
  match ← peekBehindSpace with
  | none => throw .truncated
  | some '\x7b' =>
    skip
    objectFields true fields initial (fields.length + 1)
  | some '[' =>
    skip
    listFields true initial fields
  | some _ => refuse

/-- Reads a whole text. -/
def run (reader : Reader α) (text : String) : Except Defect α := do
  let (value, rest) ← StateT.run reader text.toList
  if rest.all isSpace then return value else throw .malformed

end Reader

end TidyScript.Json
