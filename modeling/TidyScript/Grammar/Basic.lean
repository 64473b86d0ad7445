import TidyScript.Grammar.Statement

/-!
# The grammar as a whole

`Productions.upTo` closes the circle among the productions. At each level a
production may call the others one level below, and it does so only after taking a
token. A row of `n` tokens is therefore read in full at level `n + 1`, and more
levels change nothing.

The public entry points read one statement, one expression, or a whole row.
-/

namespace TidyScript.Grammar

/-- The productions with a given number of nested calls of each other. -/
def Productions.upTo : Nat → Productions
  | 0 => Productions.none
  | depth + 1 =>
    let p := Productions.upTo depth
    { statement := Grammar.statement p
      assignment := Grammar.assignment p
      binary := Grammar.binary p
      unary := Grammar.unary p
      chain := Grammar.chain p
      construct := Grammar.construct p
      primary := Grammar.primary p }

/-- The productions for the tokens that are left. -/
def productions : Parse Productions := do
  return Productions.upTo ((← get).rest.length + 1)

/-- Reads one expression. -/
def readExpression : Parse (Expr Mark) := do
  expression (← productions)

/-- Reads statements up to the end. -/
def readProgram : Parse (List (Stmt Mark)) := do
  manyUntil atEnd (← productions).statement

/-- Reads one expression, an optional semicolon and the end. The expression also
becomes a statement. -/
def readSingleExpression : Parse (Expr Mark × Stmt Mark) := do
  let value ← readExpression
  let _ ← eatPunct ";"
  expectEnd
  let statement ← finishStmt value.outer.start (.expression · value)
  return (value, statement)

end TidyScript.Grammar
