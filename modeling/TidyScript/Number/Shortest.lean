import TidyScript.Number.Binary

/-!
# The shortest text of a double

Many decimals read back as the same double: all those in an interval around it.
The text of a double is the decimal of that interval with the fewest digits, and
of several such decimals the one nearest to the double, the larger one on a tie.
It is written in positional notation, however long that becomes.

The search walks the grids of multiples of `10 ^ k` from coarse to fine. On each
grid only the two neighbours of the value need to be looked at: if any multiple
lies in the interval, so does one of them. All comparisons are between whole
numbers.
-/

namespace TidyScript.Number

/-- A decimal `digits · 10 ^ exponent`. -/
structure Scientific where
  digits : Nat
  exponent : Int

/-- The interval of reals that read as one double, in quarters of the unit
`2 ^ exponent`. The ends belong to it when `closed` holds. -/
structure RoundingInterval where
  low : Nat
  value : Nat
  high : Nat
  exponent : Int
  closed : Bool

namespace RoundingInterval

/-- The interval of a positive double. Below a power of two the neighbouring
double is only half as far away, unless the unit cannot shrink further. -/
def ofParts (p : Parts) : RoundingInterval :=
  let edge := p.mantissa = capacity 52 && p.exponent > -1074
  ⟨4 * p.mantissa - (if edge then 1 else 2), 4 * p.mantissa, 4 * p.mantissa + 2,
    p.exponent - 2, p.mantissa % 2 = 0⟩

/-- The nearest multiple of `10 ^ k` that lies in the interval. -/
def gridPoint? (interval : RoundingInterval) (k : Int) : Option Nat :=
  let left := capacity interval.exponent.toNat * Nat.pow 10 (-k).toNat
  let right := Nat.pow 10 k.toNat * capacity (-interval.exponent).toNat
  let below := interval.value * left / right
  let inside (digits : Nat) : Bool :=
    if interval.closed then
      interval.low * left ≤ digits * right && digits * right ≤ interval.high * left
    else interval.low * left < digits * right && digits * right < interval.high * left
  let fromBelow := interval.value * left - below * right
  let fromAbove := (below + 1) * right - interval.value * left
  if inside below && (!inside (below + 1) || fromBelow < fromAbove) then some below
  else if inside (below + 1) then some (below + 1)
  else none

/-- The first grid, from `10 ^ k` to finer ones, that has a point in the
interval. Twenty grids below the leading digit are more than enough. -/
def search (interval : RoundingInterval) : Nat → Int → Scientific
  | 0, k => ⟨interval.value, k⟩
  | steps + 1, k =>
    match interval.gridPoint? k with
    | some digits => ⟨digits, k⟩
    | none => search interval steps (k - 1)

/-- The shortest decimal of the interval. The search starts at a power of ten
above the value, which its number of bits bounds. -/
def shortest (interval : RoundingInterval) : Scientific :=
  let bits : Int := Nat.log2 interval.value + 1 + interval.exponent
  search interval 24 (bits * 30103 / 100000 + 1)

end RoundingInterval

/-- A decimal in positional notation. -/
def Scientific.positional (s : Scientific) : String :=
  let digits := Nat.toDigits 10 s.digits
  if 0 ≤ s.exponent then String.ofList (digits ++ List.replicate s.exponent.toNat '0')
  else
    let places := s.exponent.natAbs
    let padded := List.replicate (places + 1 - digits.length) '0' ++ digits
    let whole := padded.length - places
    String.ofList (padded.take whole ++ '.' :: padded.drop whole)

/-- The text of a number: `NaN`, a signed `Infinity`, `0` for both zeros, and the
shortest decimal otherwise. -/
def text (x : Float) : String :=
  if x.isNaN then "NaN"
  else if x.isInf then (if x > 0 then "Infinity" else "-Infinity")
  else if x == 0 then "0"
  else
    let parts := Parts.ofFloat x
    let magnitude := (RoundingInterval.ofParts parts).shortest.positional
    if parts.negative then "-" ++ magnitude else magnitude

end TidyScript.Number
