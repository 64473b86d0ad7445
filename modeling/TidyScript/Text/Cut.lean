import TidyScript.Text.Fault

/-!
# Cutting text at byte offsets

Characters take one to four bytes, so a byte offset names a place in a text only
when it falls between two characters. `splitAtByte?` finds that place, and
`slice?` cuts a span out. Both work on lists of characters; `cut` is the same for
strings and turns a missing answer into a fault.
-/

namespace TidyScript.Text

/-- The number of bytes that the characters take. -/
def byteLength : List Char → Nat
  | [] => 0
  | c :: cs => c.utf8Size + byteLength cs

/-- The characters before and after a byte offset, if the offset falls between
two characters. -/
def splitAtByte? (offset : Nat) : List Char → Option (List Char × List Char)
  | [] => if offset = 0 then some ([], []) else none
  | c :: cs =>
    if offset = 0 then some ([], c :: cs)
    else if offset < c.utf8Size then none
    else (splitAtByte? (offset - c.utf8Size) cs).map fun parts => (c :: parts.1, parts.2)

/-- The characters of a span, if both its ends fall between characters. -/
def slice? (cs : List Char) (span : Span) : Option (List Char) :=
  if span.start ≤ span.stop then
    (splitAtByte? span.start cs).bind fun outer =>
      (splitAtByte? (span.stop - span.start) outer.2).map fun inner => inner.1
  else none

/-- The text of a span. -/
def cut (source : String) (span : Span) : Except Fault String :=
  match slice? source.toList span with
  | some cs => .ok (String.ofList cs)
  | none => .error (.badCut span)

end TidyScript.Text
