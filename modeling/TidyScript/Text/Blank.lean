import TidyScript.Text.CharRange

/-!
# White space

The characters with the Unicode property `White_Space`: the ASCII blanks, the
two Latin-1 ones, and the spaces and separators of the general punctuation block
and of Ogham and CJK text. The byte order mark is not among them.
-/

namespace TidyScript.Text

/-- The ranges of the property `White_Space`. -/
def blankRanges : CharRanges :=
  [(0x9, 0xD), (0x20, 0x20), (0x85, 0x85), (0xA0, 0xA0), (0x1680, 0x1680), (0x2000, 0x200A),
   (0x2028, 0x2029), (0x202F, 0x202F), (0x205F, 0x205F), (0x3000, 0x3000)]

/-- Is `c` white space? -/
def isBlank (c : Char) : Bool :=
  blankRanges.has c

/-- The text without the white space at its two ends. -/
def trim (cs : List Char) : List Char :=
  ((cs.dropWhile isBlank).reverse.dropWhile isBlank).reverse

end TidyScript.Text
