import TidyScript.Text.Span

/-!
# Requests that no text can answer

Two requests have no answer: to cut a text outside its bounds or inside a
character, and to combine edits that overlap. Both are faults of whoever made
the request and never of the program under inspection. Every function that cuts
or edits text says so in its type.
-/

namespace TidyScript

/-- A request that cannot be answered. -/
inductive Fault where
  /-- The span runs backwards, leaves the text, or ends inside a character. -/
  | badCut (span : Span)
  /-- The two edits of one fix share a byte. -/
  | overlap (first second : Span)
deriving DecidableEq, Repr

end TidyScript
