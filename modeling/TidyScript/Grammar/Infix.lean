import TidyScript.Grammar.State

/-!
# Operators between operands

Which tokens are operators between two operands, what they build, and the numbers
that precedence climbing compares: of two operators in a row the one with the larger
power takes the operand between them, and among equals the left one does. Only `**`
groups to the right.
-/

namespace TidyScript.Grammar

/-- An operator between two operands. -/
inductive Infix where
  | logical (op : LogicalOp)
  | binary (op : BinaryOp)
deriving DecidableEq, Repr

namespace Infix

/-- The power by which the operator binds. -/
def power : Infix → Nat
  | logical .coalesce => 1
  | logical .or => 2
  | logical .and => 3
  | binary .bitOr => 4
  | binary .bitXor => 5
  | binary .bitAnd => 6
  | binary .equal => 7
  | binary .notEqual => 7
  | binary .strictEqual => 7
  | binary .strictNotEqual => 7
  | binary .less => 8
  | binary .greater => 8
  | binary .lessEqual => 8
  | binary .greaterEqual => 8
  | binary .instanceOf => 8
  | binary .membership => 8
  | binary .shiftLeft => 9
  | binary .shiftRight => 9
  | binary .shiftRightUnsigned => 9
  | binary .add => 10
  | binary .subtract => 10
  | binary .multiply => 11
  | binary .divide => 11
  | binary .modulo => 11
  | binary .power => 12

/-- The least power that the right operand may be built with. -/
def rightLeast (op : Infix) : Nat :=
  if op = binary .power then op.power else op.power + 1

/-- The operator that a token is, where `noIn` bars the operator `in`. Words are
operators as keywords only, all others as punctuators. -/
def ofToken? (noIn : Bool) (token : Token) : Option Infix :=
  match token.kind with
  | .punctuator =>
    match LogicalOp.ofText? token.text with
    | some op => some (logical op)
    | none => (BinaryOp.ofText? token.text).map binary
  | .keyword =>
    if token.text = "instanceof" then some (binary .instanceOf)
    else if token.text = "in" && !noIn then some (binary .membership)
    else none
  | _ => none

/-- The expression that the operator builds. -/
def build (op : Infix) (left right : Expr Mark) (mark : Mark) : Expr Mark :=
  match op with
  | logical op => .logical mark op left right
  | binary op => .binary mark op left right

end Infix

end TidyScript.Grammar
