import TidyScript.Text.Fault

/-!
# Edits and fixes

An edit replaces the bytes of a span by a text; an empty span is a place where text
is inserted. A fix is a row of edits that belong together, sorted by their spans.
The edits of one fix may touch but must not overlap, and `Fix.ofEdits` refuses edits
that do.
-/

namespace TidyScript

/-- Replaces the text of a span. -/
structure Edit where
  span : Span
  replacement : String
deriving DecidableEq, Repr

namespace Edit

/-- Removes the text of a span. -/
def remove (span : Span) : Edit :=
  ⟨span, ""⟩

/-- Inserts a text at an offset. -/
def insert (offset : Nat) (text : String) : Edit :=
  ⟨⟨offset, offset⟩, text⟩

/-- Edits are ordered by their spans. -/
def le (a b : Edit) : Bool :=
  a.span.le b.span

/-- Edits in the order of their spans, equal spans in the given order. -/
def sort (edits : List Edit) : List Edit :=
  edits.mergeSort le

/-- The first two neighbours that overlap. -/
def firstOverlap? : List Edit → Option (Span × Span)
  | [] => none
  | [_] => none
  | a :: b :: rest =>
    if a.span.stop ≤ b.span.start then firstOverlap? (b :: rest) else some (a.span, b.span)

end Edit

/-- Edits that are made together or not at all. -/
structure Fix where
  edits : List Edit
deriving DecidableEq, Repr

namespace Fix

/-- The fix of the given edits, if no two of them overlap. -/
def ofEdits (edits : List Edit) : Except Fault Fix :=
  let sorted := Edit.sort edits
  match Edit.firstOverlap? sorted with
  | some (first, second) => .error (.overlap first second)
  | none => .ok ⟨sorted⟩

/-- The fix of a single edit. -/
def single (edit : Edit) : Fix :=
  ⟨[edit]⟩

/-- The span from the start of the first edit to the end of the last. -/
def extent? (fix : Fix) : Option Span :=
  match fix.edits.head?, fix.edits.getLast? with
  | some first, some last => some ⟨first.span.start, last.span.stop⟩
  | _, _ => none

end Fix

end TidyScript
