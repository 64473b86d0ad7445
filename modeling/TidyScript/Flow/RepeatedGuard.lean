import TidyScript.Edit.Basic
import TidyScript.Flow.Leaving
import TidyScript.Flow.Moving
import TidyScript.Logic.Equivalence

/-!
# A guard that repeats what follows it

In a function body, a guard `if (test) { S; return x; }` with `S; return x;` behind it
decides nothing: both ways the same code runs. The guard can go. Its test stays as a
statement of its own if evaluating it may have an effect, in parentheses if its text
would otherwise start a block, a function or a class.
-/

namespace TidyScript

/-- A guard whose body repeats the statements behind it. -/
structure RepeatedGuard where
  guard : Stmt Mark
  /-- The place of the statements behind the guard. -/
  tail : Span
  /-- Removes the guard and keeps a test that may have an effect. -/
  removal : Fix

/-- Would the text of the expression be read as something else at the start of a
statement? -/
def Expr.startsAsStatement {α : Type} : Expr α → Bool
  | .object _ _ => true
  | .function _ _ _ _ _ => true
  | .hidden _ => true
  | _ => false

namespace Program

/-- What is left of a guard, in front of the statement that starts at `next`. -/
def guardRemains (program : Program) (guard : Stmt Mark) (test : Expr Mark) (next : Nat) :
    Except Fault String := do
  if test.isPure then return ""
  let text ← program.exprText test
  let statement := if test.startsAsStatement then "(" ++ text ++ ");" else text ++ ";"
  return statement ++ (← program.text ⟨guard.span.stop, next⟩)

/-- The guard at the head of a list of statements, if it repeats the others. -/
def repeatedGuard? (program : Program) (guard : Stmt Mark) (rest : List (Stmt Mark)) :
    Except Fault (Option RepeatedGuard) :=
  match guard, rest.head?, rest.getLast? with
  | .branch _ test consequent none, some next, some last =>
    if consequent.guardLeaves && program.sameSequence consequent.statements rest then do
      let start := next.span.start
      let remains ← program.guardRemains guard test start
      return some ⟨guard, ⟨start, last.span.stop⟩, .single ⟨⟨guard.span.start, start⟩, remains⟩⟩
    else return none
  | _, _, _ => return none

/-- The guards of a function body that repeat what follows them. -/
def repeatedGuards (program : Program) : List (Stmt Mark) → Except Fault (List RepeatedGuard)
  | [] => return []
  | s :: rest => do
    let found ← program.repeatedGuard? s rest
    return found.toList ++ (← program.repeatedGuards rest)

end Program

end TidyScript
