/-!
# The order of texts by 16-bit units

Scripts compare texts by their UTF-16 form, unit by unit. A character outside the
basic plane takes two units, which sort below the last part of that plane, so this is
not the order by code points.
-/

namespace TidyScript.Text

/-- The 16-bit units of a character. -/
def unitsOfChar (c : Char) : List Nat :=
  if c.toNat < 0x10000 then [c.toNat]
  else [0xD800 + (c.toNat - 0x10000) / 0x400, 0xDC00 + (c.toNat - 0x10000) % 0x400]

/-- The 16-bit units of a text. -/
def units (text : String) : List Nat :=
  text.toList.flatMap unitsOfChar

/-- Does a list of numbers come before another one, as words come in a dictionary? -/
def before : List Nat → List Nat → Bool
  | _, [] => false
  | [], _ :: _ => true
  | a :: as, b :: bs => a < b || (a = b && before as bs)

/-- Does a text come before another one by their units? -/
def unitsBefore (a b : String) : Bool :=
  before (units a) (units b)

end TidyScript.Text
