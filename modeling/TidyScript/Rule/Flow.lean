import TidyScript.Flow.CommonEnding
import TidyScript.Flow.Leaving
import TidyScript.Flow.NeedlessElse
import TidyScript.Flow.RepeatedGuard
import TidyScript.Rule.Basic

/-!
# The three rules on statements

`no-else-return` reports an `else` behind a branch that always leaves,
`no-duplicate-return` a guard that repeats the rest of its function, and
`try-catch-tail` a statement that ends both a `try` block and its handler. A guard is
reported twice, at the guard and at the statements that it repeats, and its removal is
only suggested.
-/

namespace TidyScript.Program

/-- The place of the word `else` behind the first branch of an `if`, or of the whole
`if`. -/
def elseSpan (program : Program) (whole consequent : Stmt Mark) : Span :=
  match program.tokenFrom? consequent.span.stop with
  | some token => if token.isKeyword "else" then token.span else whole.span
  | none => whole.span

/-- The report on an `else` that is not needed. -/
def elseReport? (program : Program) (s : Stmt Mark) : Except Fault (Option Report) :=
  match s with
  | .branch _ _ consequent (some _) =>
    if consequent.leaves then do
      return some {
        rule := .noElseReturn, id := "unnecessary-else"
        message := "Unnecessary 'else' after 'return'"
        span := program.elseSpan s consequent
        fix := ← program.unwrapElse? s }
    else return none
  | _ => return none

/-- The two reports on a guard that repeats what follows it. -/
def guardReports (found : RepeatedGuard) : List Report :=
  [{ rule := .noDuplicateReturn, id := "redundant-guard"
     message := "This early return repeats the code that follows it"
     span := found.guard.span
     suggestions := [found.removal] },
   { rule := .noDuplicateReturn, id := "duplicate-tail"
     message := "Duplicates the early return above"
     span := found.tail }]

/-- The reports on the guards of a function body. -/
def bodyReports (program : Program) (body : List (Stmt Mark)) : Except Fault (List Report) := do
  return (← program.repeatedGuards body).flatMap guardReports

/-- The place of the first token of a statement. -/
def firstWord (program : Program) (s : Stmt Mark) : Span :=
  match (program.tokensIn s.span).head? with
  | some token => token.span
  | none => s.span

/-- The report on a statement that ends a `try` and its handler. -/
def endingReport? (program : Program) (s : Stmt Mark) : Except Fault (Option Report) :=
  match program.commonEnding? s with
  | some ending => do
    let text ← program.stmtText ending.ofBlock
    return some {
      rule := .tryCatchTail, id := "hoist-to-finally"
      message := "`" ++ text ++
        "` ends both the try block and the catch handler; move it to finally"
      span := program.firstWord s
      fix := ← program.hoistEnding? s ending }
  | none => return none

end TidyScript.Program
