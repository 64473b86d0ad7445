/-!
# Sets of characters given by code point ranges

A character class of the Unicode standard is a finite union of closed ranges of
code points. This module fixes how such a union is written, as a list of pairs
`(first, last)`, and how membership is decided. The classes themselves stand in
modules of their own, one per property.
-/

namespace TidyScript.Text

/-- A finite union of closed ranges of code points, each given by its first and
its last member. -/
abbrev CharRanges := List (Nat × Nat)

namespace CharRanges

/-- Does the code point of `c` lie in one of the ranges? -/
def has (ranges : CharRanges) (c : Char) : Bool :=
  ranges.any fun range => range.1 ≤ c.toNat && c.toNat ≤ range.2

end CharRanges

end TidyScript.Text
