import TidyScript.Program.Source

/-!
# Code that reads the same

Two pieces of code are taken for the same when their tokens are, whatever the
quotes of strings and the space between tokens. Expressions are compared without the
parentheses around them. Lists of statements are compared as one row of tokens, and
without the bare `return` statements at their ends, which change nothing there.
-/

namespace TidyScript.Program

/-- Do two expressions read the same, apart from parentheses around them? -/
def sameExpr (program : Program) (a b : Expr Mark) : Bool :=
  Token.sameRow (program.tokensIn a.span) (program.tokensIn b.span)

/-- Do two statements read the same? -/
def sameStmt (program : Program) (a b : Stmt Mark) : Bool :=
  Token.sameRow (program.tokensIn a.span) (program.tokensIn b.span)

/-- Is it a `return` without a value? -/
def isBareReturn : Stmt Mark → Bool
  | .returning _ none => true
  | _ => false

/-- The statements without the bare returns at their end. -/
def withoutFinalReturns (body : List (Stmt Mark)) : List (Stmt Mark) :=
  (body.reverse.dropWhile isBareReturn).reverse

/-- The tokens of a list of statements. -/
def rowOf (program : Program) (body : List (Stmt Mark)) : List Token :=
  body.flatMap fun s => program.tokensIn s.span

/-- Do two lists of statements read the same, apart from bare returns at the end? -/
def sameSequence (program : Program) (a b : List (Stmt Mark)) : Bool :=
  Token.sameRow (program.rowOf (withoutFinalReturns a)) (program.rowOf (withoutFinalReturns b))

end TidyScript.Program
