/-!
# Byte ranges of a source text

Positions in a source text are offsets in bytes of its UTF-8 form. A span is a
half-open range of such offsets. A span is only a pair of numbers: whether it
lies inside a given text, and on character boundaries, is asked when the text is
cut (`TidyScript.Text.Cut`).
-/

namespace TidyScript

/-- The bytes from `start` up to, and not including, `stop`. -/
structure Span where
  start : Nat
  stop : Nat
deriving DecidableEq, Repr

namespace Span

/-- The smallest span that covers both spans. -/
def cover (a b : Span) : Span :=
  ⟨min a.start b.start, max a.stop b.stop⟩

/-- Does `b` lie inside `a`? -/
def contains (a b : Span) : Bool :=
  a.start ≤ b.start && b.stop ≤ a.stop

/-- A span without bytes: a place between two characters. -/
def isEmpty (a : Span) : Bool :=
  a.start == a.stop

/-- The number of bytes of a span. -/
def length (a : Span) : Nat :=
  a.stop - a.start

/-- Spans are ordered by their start, then by their end. -/
def compare (a b : Span) : Ordering :=
  (Ord.compare a.start b.start).then (Ord.compare a.stop b.stop)

/-- The order of `compare` as a test. -/
def le (a b : Span) : Bool :=
  a.start < b.start || (a.start == b.start && a.stop ≤ b.stop)

end Span

end TidyScript
