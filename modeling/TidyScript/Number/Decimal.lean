import TidyScript.Number.Natural

/-!
# Reading decimal numbers

A decimal number is an optional sign, then digits with at most one point among
them and at least one digit, then an optional exponent. The words `inf`,
`infinity` and `nan`, in any mixture of cases, are numbers too. Reading rounds to
the nearest double; a magnitude beyond the largest double reads as infinity, and
one below half the smallest as zero.
-/

namespace TidyScript.Number

/-- What a decimal number is made of: the digits without the point, as a number,
how many they are without leading zeros, and the power of ten that they are
multiplied by. -/
structure Decimal where
  digits : Nat
  width : Nat
  exponent : Int

namespace Decimal

/-- The double nearest to a decimal. Powers of ten so large or small that the
result does not depend on the digits are settled first. -/
def toFloat (d : Decimal) : Float :=
  let magnitude := d.width + d.exponent
  if d.digits = 0 then 0
  else if magnitude > 400 then 1 / 0
  else if magnitude < -400 then 0
  else Float.ofScientific d.digits (d.exponent < 0) d.exponent.natAbs

end Decimal

/-- The exponent part of a decimal: nothing, or a letter `e`, an optional sign
and digits. -/
def readExponent? : List Char → Option Int
  | [] => some 0
  | c :: cs =>
    if c = 'e' || c = 'E' then
      let negative := cs.head? = some '-'
      let digits := if negative then cs.tail else withoutPlus cs
      if digits.isEmpty then none
      else (ofDigits? 10 0 digits).map fun value => if negative then -(value : Int) else value
    else none

/-- A decimal without sign. -/
def readUnsigned? (text : List Char) : Option Decimal :=
  let whole := text.takeWhile Char.isDigit
  let afterWhole := text.dropWhile Char.isDigit
  let pointed := afterWhole.head? = some '.'
  let afterPoint := if pointed then afterWhole.tail else afterWhole
  let fraction := if pointed then afterPoint.takeWhile Char.isDigit else []
  let tail := afterPoint.drop fraction.length
  let digits := whole ++ fraction
  if digits.isEmpty then none
  else
    (ofDigits? 10 0 digits).bind fun value =>
      (readExponent? tail).map fun exponent =>
        ⟨value, (digits.dropWhile (· = '0')).length, exponent - fraction.length⟩

/-- The magnitude that a text without sign stands for. -/
def readMagnitude? (text : List Char) : Option Float :=
  let word := text.map Char.toLower
  if word = "inf".toList || word = "infinity".toList then some (1 / 0)
  else if word = "nan".toList then some (0 / 0)
  else (readUnsigned? text).map Decimal.toFloat

/-- The double that a text stands for, if the text is a number. -/
def readDecimal? : List Char → Option Float
  | '-' :: cs => (readMagnitude? cs).map (- ·)
  | cs => readMagnitude? (withoutPlus cs)

/-- Not a number. -/
def nan : Float := 0 / 0

end TidyScript.Number
