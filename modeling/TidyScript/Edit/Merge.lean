import TidyScript.Edit.Basic
import TidyScript.Text.Cut

/-!
# Making several fixes at once

Fixes are taken in order, and a fix is passed over when it collides with one taken
before it. Two edits collide when they share a byte, or when one of them is an
insertion that touches the other: two insertions at one place would have no order.
The edits of all fixes taken are then made in a single walk through the source.
-/

namespace TidyScript

/-- Do two spans share a byte, or does one of them, being empty, touch the other? -/
def Span.collides (a b : Span) : Bool :=
  if a.isEmpty || b.isEmpty then max a.start b.start ≤ min a.stop b.stop
  else a.start < b.stop && b.start < a.stop

namespace Fix

/-- Does an edit of one fix collide with an edit of the other? -/
def collides (a b : Fix) : Bool :=
  a.edits.any fun x => b.edits.any fun y => x.span.collides y.span

/-- The fixes that are taken, given those taken already. -/
def takeFrom (taken : List Fix) : List Fix → List Fix
  | [] => taken
  | fix :: fixes =>
    if taken.all fun earlier => !earlier.collides fix then takeFrom (taken ++ [fix]) fixes
    else takeFrom taken fixes

/-- The fixes that are taken: each one that collides with none taken before it. -/
def accepted (fixes : List Fix) : List Fix :=
  takeFrom [] fixes

/-- The source from an offset on, with the given edits made. -/
def weave (source : String) (cursor : Nat) : List Edit → Except Fault String
  | [] => Text.cut source ⟨cursor, Text.byteLength source.toList⟩
  | edit :: edits => do
    let kept ← Text.cut source ⟨cursor, edit.span.start⟩
    let rest ← weave source edit.span.stop edits
    return kept ++ edit.replacement ++ rest

/-- Makes as many fixes as possible, in order. Gives the new text and the number of
fixes made. -/
def applyAll (source : String) (fixes : List Fix) : Except Fault (String × Nat) := do
  let taken := accepted fixes
  let output ← weave source 0 (Edit.sort (taken.flatMap Fix.edits))
  return (output, taken.length)

/-- Makes this fix alone. -/
def apply (fix : Fix) (source : String) : Except Fault String := do
  return (← applyAll source [fix]).1

end Fix

end TidyScript
