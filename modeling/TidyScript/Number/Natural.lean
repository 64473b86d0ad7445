/-!
# Reading natural numbers in a radix

The numerals `0-9`, `a-z` and `A-Z` have the values 0 to 35. A natural number in
a radix is a non-empty row of numerals below the radix, with an optional plus
sign in front, and it is accepted only below a given limit.
-/

namespace TidyScript.Number

/-- The number of values that a word of the given number of bits can have. -/
def capacity (bits : Nat) : Nat :=
  Nat.pow 2 bits

/-- The value of a numeral in the largest radix, 36. -/
def digitValue? (c : Char) : Option Nat :=
  if '0' ≤ c && c ≤ '9' then some (c.toNat - 48)
  else if 'a' ≤ c && c ≤ 'z' then some (c.toNat - 87)
  else if 'A' ≤ c && c ≤ 'Z' then some (c.toNat - 55)
  else none

/-- The value of a numeral of the radix. -/
def digitIn? (radix : Nat) (c : Char) : Option Nat :=
  (digitValue? c).filter (· < radix)

/-- Is `c` a hexadecimal numeral? -/
def isHexDigit (c : Char) : Bool :=
  (digitIn? 16 c).isSome

/-- The value of a row of numerals that continues the number `value`. -/
def ofDigits? (radix value : Nat) : List Char → Option Nat
  | [] => some value
  | c :: cs => (digitIn? radix c).bind fun digit => ofDigits? radix (value * radix + digit) cs

/-- Drops one plus sign at the front. -/
def withoutPlus : List Char → List Char
  | '+' :: cs => cs
  | cs => cs

/-- The natural number below `limit` that the text writes in the radix. -/
def readNatural? (radix limit : Nat) (text : List Char) : Option Nat :=
  let digits := withoutPlus text
  if digits.isEmpty then none
  else (ofDigits? radix 0 digits).filter (· < limit)

end TidyScript.Number
