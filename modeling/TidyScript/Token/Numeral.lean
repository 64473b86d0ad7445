import TidyScript.Number.Decimal

/-!
# Number literals

A number literal is either a radix mark `0x`, `0o` or `0b` with hexadecimal digits
and underscores after it, or decimal digits and underscores with at most one
point among them and an optional exponent. A letter `n` may end either form. The
scanner only measures; what a literal denotes is `numeralValue`, and a literal
that denotes no number, such as `0b2`, denotes the non-number.
-/

namespace TidyScript.Token

/-- The letters that mark a radix after a leading zero, with the radix. -/
def radixOf? (c : Char) : Option Nat :=
  if c = 'x' || c = 'X' then some 16
  else if c = 'o' || c = 'O' then some 8
  else if c = 'b' || c = 'B' then some 2
  else none

/-- The number of characters of decimal digits, underscores and, unless one was
seen already, one point. -/
def decimalLength (pointSeen : Bool) : List Char → Nat
  | [] => 0
  | c :: cs =>
    if c.isDigit || c = '_' then decimalLength pointSeen cs + 1
    else if c = '.' && !pointSeen then decimalLength true cs + 1
    else 0

/-- The number of characters of an exponent: none unless a digit follows the
letter and its optional sign. -/
def exponentLength : List Char → Nat
  | [] => 0
  | c :: cs =>
    if c = 'e' || c = 'E' then
      let signed := cs.head?.any fun sign => sign = '+' || sign = '-'
      let digits := ((if signed then cs.tail else cs).takeWhile Char.isDigit).length
      if digits = 0 then 0 else (if signed then 2 else 1) + digits
    else 0

/-- The number of characters of a decimal number literal without its final
letter. -/
def decimalNumeralLength (cs : List Char) : Nat :=
  decimalLength false cs + exponentLength (cs.drop (decimalLength false cs))

/-- The number of characters of a number literal without its final letter. -/
def mantissaLength (cs : List Char) : Nat :=
  match cs with
  | '0' :: mark :: rest =>
    if (radixOf? mark).isSome then
      2 + (rest.takeWhile fun c => Number.isHexDigit c || c = '_').length
    else decimalNumeralLength cs
  | _ => decimalNumeralLength cs

/-- The number of characters of the number literal at the front. -/
def numeralLength (cs : List Char) : Nat :=
  mantissaLength cs + if (cs.drop (mantissaLength cs)).head? = some 'n' then 1 else 0

/-- The number that a number literal denotes. Underscores and letters `n` do not
count; digits after a radix mark denote a number below `2 ^ 64`. -/
def numeralValue (raw : String) : Float :=
  let text := raw.toList.filter fun c => c ≠ '_' && c ≠ 'n'
  let decimal := (Number.readDecimal? text).getD Number.nan
  match text with
  | '0' :: mark :: digits =>
    match radixOf? mark with
    | some radix =>
      ((Number.readNatural? radix (Number.capacity 64) digits).map Float.ofNat).getD Number.nan
    | none => decimal
  | _ => decimal

/-! ## Progress -/

theorem decimalLength_pos {c : Char} (h : c.isDigit = true ∨ c = '.') (rest : List Char) :
    0 < decimalLength false (c :: rest) := by
  rw [decimalLength]
  rcases h with h | rfl
  · simp [h]
  · split <;> simp

theorem mantissaLength_pos {c : Char} (h : c.isDigit = true ∨ c = '.') (rest : List Char) :
    0 < mantissaLength (c :: rest) := by
  have whole := decimalLength_pos h rest
  unfold mantissaLength
  split
  · split
    · omega
    · exact Nat.lt_of_lt_of_le whole (Nat.le_add_right _ _)
  · exact Nat.lt_of_lt_of_le whole (Nat.le_add_right _ _)

/-- A number literal takes at least one character. -/
theorem numeralLength_pos {c : Char} (h : c.isDigit = true ∨ c = '.') (rest : List Char) :
    0 < numeralLength (c :: rest) :=
  Nat.lt_of_lt_of_le (mantissaLength_pos h rest) (Nat.le_add_right _ _)

end TidyScript.Token
