import TidyScript.Number.Natural

/-!
# Doubles taken apart

A finite double is a sign and a whole number of units, where a unit is a power of
two. `Parts.ofFloat` takes a double apart into these, exactly, and the operations
whose results are always exact are then computed on whole numbers: the remainder
of a division, the whole part, and the reduction to 32 bits.
-/

namespace TidyScript.Number

/-- The finite double `± mantissa · 2 ^ exponent`. -/
structure Parts where
  negative : Bool
  mantissa : Nat
  exponent : Int

namespace Parts

/-- The sign, mantissa and exponent of a finite double, read off its bits. -/
def ofFloat (x : Float) : Parts :=
  let bits : Nat := x.toBits.toNat
  let field : Nat := bits / capacity 52 % capacity 11
  let fraction : Nat := bits % capacity 52
  let negative := bits / capacity 63 = 1
  if field = 0 then ⟨negative, fraction, -1074⟩
  else ⟨negative, fraction + capacity 52, (field : Int) - 1075⟩

/-- The double of the parts, when the mantissa takes at most 53 bits. -/
def toFloat (p : Parts) : Float :=
  let magnitude := Float.scaleB (Float.ofNat p.mantissa) p.exponent
  if p.negative then -magnitude else magnitude

/-- The whole number between zero and the value that is nearest to the value. -/
def whole (p : Parts) : Int :=
  let magnitude : Nat :=
    if 0 ≤ p.exponent then p.mantissa * capacity p.exponent.toNat
    else p.mantissa / capacity (-p.exponent).toNat
  if p.negative then -(magnitude : Int) else magnitude

/-- What is left of the first number after taking away the second as often as it
fits, toward zero. Both are written in the smaller of the two units first. -/
def remainder (a b : Parts) : Parts :=
  let exponent := min a.exponent b.exponent
  let scale (p : Parts) : Nat := p.mantissa * capacity (p.exponent - exponent).toNat
  ⟨a.negative, scale a % scale b, exponent⟩

end Parts

/-- The remainder of a division that rounds the quotient toward zero. The result
has the sign of the dividend. -/
def remainder (a b : Float) : Float :=
  if a.isNaN || b.isNaN || a.isInf || b == 0 then 0 / 0
  else if b.isInf then a
  else ((Parts.ofFloat a).remainder (Parts.ofFloat b)).toFloat

/-- The whole part of a number, reduced to a signed 32-bit number. Infinite
values and non-numbers give zero. -/
def toInt32 (x : Float) : BitVec 32 :=
  if x.isFinite then BitVec.ofInt 32 (Parts.ofFloat x).whole else 0

/-- The double of a whole number. -/
def ofInt (n : Int) : Float :=
  if n < 0 then -(Float.ofNat n.natAbs) else Float.ofNat n.natAbs

end TidyScript.Number
