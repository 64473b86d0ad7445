import TidyScript.Tree.Basic

/-!
# Where a node stands

The grammar gives each node a number and a place. Expressions and statements are
numbered apart, each in the order in which they are completed, so that a node has
a larger number than the nodes of its sort below it. The place of an expression is
known with and without the parentheses around it; for a statement the two are the
same.
-/

namespace TidyScript

/-- The number and the place of a node. -/
structure Mark where
  /-- The number among the nodes of the same sort. -/
  index : Nat
  /-- The place without enclosing parentheses. -/
  span : Span
  /-- The place with enclosing parentheses. -/
  outer : Span
deriving DecidableEq, Repr

/-- Does the node stand in parentheses? -/
def Mark.isParenthesized (mark : Mark) : Bool :=
  mark.outer ≠ mark.span

namespace Expr

/-- The number of an expression. -/
def index (e : Expr Mark) : Nat := e.mark.index

/-- The place of an expression without its parentheses. -/
def span (e : Expr Mark) : Span := e.mark.span

/-- The place of an expression with its parentheses. -/
def outer (e : Expr Mark) : Span := e.mark.outer

/-- Does the expression stand in parentheses? -/
def isParenthesized (e : Expr Mark) : Bool := e.mark.isParenthesized

end Expr

namespace Stmt

/-- The number of a statement. -/
def index (s : Stmt Mark) : Nat := s.mark.index

/-- The place of a statement. -/
def span (s : Stmt Mark) : Span := s.mark.span

end Stmt

/-- The name of a node: its sort and its number. -/
inductive NodeId where
  | expr (index : Nat)
  | stmt (index : Nat)
deriving DecidableEq, Repr

/-- The name of a node. -/
def Node.id : Node Mark → NodeId
  | .expr value => .expr value.index
  | .stmt value => .stmt value.index

end TidyScript
