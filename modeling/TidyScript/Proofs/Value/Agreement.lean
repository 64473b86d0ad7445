import Mathlib.Data.List.FinRange
import Mathlib.Data.List.Induction
import Mathlib.Data.Nat.Digits.Defs
import Mathlib.Data.String.Basic
import TidyScript.Proofs.Program.Forest
import TidyScript.Proofs.Value.Stuck
import TidyScript.Value.Agreement

/-!
# The search for a disagreement

The assignments of domain values to names are the positions of an odometer with one wheel for each
name. Read as a number, its first wheel giving the lowest digit, the odometer counts up from zero,
and so it comes by every position once. The search goes through the assignments in this order: it
fixes the values of the last names first and lets those of the first names run, so that the first
name changes with every step.

What the search answers is what comparing answers under the first assignment that stops it. No name
is missing on the way, since the names to be bound are collected from all nodes and evaluation looks
up only names of nodes.
-/

namespace TidyScript

/-! ## Searching a list -/

section Search

variable {α β γ ε : Type} {f : α → Except ε (Option β)}

end Search

/-! ## Odometers -/

/-- The positions of an odometer with the given number of wheels of the given size. The first wheel
turns fastest. -/
def turns (size : Nat) : (wheels : Nat) → List (List (Fin size))
  | 0 => [[]]
  | wheels + 1 => (List.finRange size).flatMap fun last => (turns size wheels).map (· ++ [last])

/-- The number that an odometer shows. -/
def shown {size : Nat} (turn : List (Fin size)) : Nat :=
  Nat.ofDigits size (turn.map Fin.val)

section Odometer

variable {size wheels : Nat}

end Odometer

/-! ## Assignments -/

/-- The assignment of domain values to names that a position of the odometer stands for. -/
def assignment (domain : List Value) (names : List String) (turn : List (Fin domain.length)) :
    List (String × Value) :=
  names.zip (turn.map domain.get)

variable {domain : List Value} {names : List String} {bound : List (String × Value)} {name : String}

section Comparing

variable {first second : Program × Expr Mark}

end Comparing

/-! ## No name is missing -/

namespace Program

end Program

/-! ## The search -/

section Deciding

variable {before after : String} {first second : Program × Expr Mark}
  (readBefore : Program.parseExpression before = .ok first)
  (readAfter : Program.parseExpression after = .ok second)

include readBefore readAfter

end Deciding

end TidyScript
