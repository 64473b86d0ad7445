import TidyScript.Token.Basic

/-!
# The outcome of scanning a lexeme

A scanner looks at the characters from some place on and says how many of them
belong to the lexeme that starts there. It never returns the remaining text
itself: the caller drops that many characters. A scanner that gives up also says
how many characters it has passed, since scanning may go on from there.
-/

namespace TidyScript.Token

/-- The outcome of a scanner: the number of characters passed, and what they
denote or why they denote nothing. -/
structure Scan (α : Type) where
  length : Nat
  result : Except LexError α

namespace Scan

variable {α β : Type}

/-- A lexeme of the given length. -/
def done (length : Nat) (value : α) : Scan α :=
  ⟨length, .ok value⟩

/-- A scanner that gave up after the given number of characters. -/
def fail (length : Nat) (error : LexError) : Scan α :=
  ⟨length, .error error⟩

/-- The outcome seen from `count` characters earlier. -/
def after (count : Nat) (scan : Scan α) : Scan α :=
  ⟨count + scan.length, scan.result⟩

/-- Changes what a lexeme denotes. -/
def map (f : α → β) (scan : Scan α) : Scan β :=
  ⟨scan.length, scan.result.map f⟩

end Scan

end TidyScript.Token
