import TidyScript.Program.Basic

/-!
# The place of a node in its program

Whether a statement stands directly in a list of statements, whether a text of a
given binding strength can stand where an expression stands without parentheses of
its own, and the lists of statements that are function bodies.
-/

namespace TidyScript

namespace Expr

/-- As a child of `parent`, does the expression numbered `index` need parentheses
when it binds with the given strength? -/
def childNeedsParens (parent : Expr Mark) (index : Nat) (strength : Precedence) : Bool :=
  match parent with
  | binary _ op _ right =>
    let onRight := (right.index = index) != (op.precedence = .exponent)
    strength.needsParens op.precedence onRight
  | logical _ op _ right => strength.needsParens op.precedence (right.index = index)
  | unary _ _ _ => strength < .unary
  | update _ _ _ _ => strength < .unary
  | member _ base _ _ => base.index = index && strength < .call
  | call _ callee _ _ => callee.index = index && strength < .call
  | construct _ callee _ => callee.index = index && strength < .call
  | conditional _ test _ _ =>
    if test.index = index then strength ≤ .conditional else strength < .assignment
  | assignment _ _ _ _ => strength < .assignment
  | array _ _ => strength < .assignment
  | object _ _ => strength < .assignment
  | spread _ _ => strength < .assignment
  | function _ _ _ _ _ => strength < .assignment
  | sequence _ _ => strength < .assignment
  | identifier _ _ => false
  | literal _ _ => false
  | thisRef _ => false
  | hidden _ => false

end Expr

namespace Program

/-- Does a text that binds with the given strength need parentheses to stand in the
place of the expression? Not if the expression stands in parentheses already, or has
no expression above it. -/
def replacementNeedsParens (program : Program) (e : Expr Mark) (strength : Precedence) : Bool :=
  if e.isParenthesized then false
  else
    match program.parent? (.expr e.index) with
    | some (.expr parent) => parent.childNeedsParens e.index strength
    | _ => false

/-- Does the statement stand directly in a list of statements: the program, a block,
a function body or a case? -/
def inStatementList (program : Program) (s : Stmt Mark) : Bool :=
  match program.parent? (.stmt s.index) with
  | none => program.body.any fun top => top.index = s.index
  | some (.stmt (.block _ _)) => true
  | some (.stmt (.function _ _ _ _)) => true
  | some (.stmt (.switch _ _ _)) => true
  | some (.stmt _) => false
  | some (.expr (.function _ _ _ _ _)) => true
  | some (.expr _) => false

/-- The statements of a declared function. -/
def declaredBody? : Stmt Mark → Option (List (Stmt Mark))
  | .function _ _ _ body => some body
  | _ => none

/-- The statements of a function expression. -/
def expressedBody? : Expr Mark → Option (List (Stmt Mark))
  | .function _ _ _ (.block body) _ => some body
  | _ => none

/-- The function bodies of a program: those of declarations first, each sort in the
order of completion. -/
def functionBodies (program : Program) : List (List (Stmt Mark)) :=
  program.stmts.toList.filterMap declaredBody? ++ program.exprs.toList.filterMap expressedBody?

end Program

end TidyScript
