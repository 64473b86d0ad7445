import TidyScript.Tree.Basic

/-!
# Statements that leave by `return`

A statement leaves when, as far as its shape shows, it always ends in a `return`. A
block leaves as soon as one of its statements does. A loop is judged by its body,
although the body may never run. A `try` leaves when its `finally` does, or when both
its block and its handler do; without a handler the block alone does not count.

An `if` without an `else` is judged in two ways. Strictly, it does not leave, since its
test may fail. Leniently, it is judged by its one branch, which is what is asked of
the body of a guard.
-/

namespace TidyScript.Stmt

variable {α : Type}

mutual

/-- Does the statement leave, where `lenient` says how to judge an absent `else`? -/
def leavesWith (lenient : Bool) : Stmt α → Bool
  | returning _ _ => true
  | block _ body => someLeavesWith lenient body
  | branch _ _ consequent none => leavesWith lenient consequent && lenient
  | branch _ _ consequent (some alternate) =>
    leavesWith lenient consequent && leavesWith lenient alternate
  | forLoop _ _ _ _ body => leavesWith lenient body
  | forIn _ _ _ body => leavesWith lenient body
  | forOf _ _ _ body => leavesWith lenient body
  | whileLoop _ _ body => leavesWith lenient body
  | doWhile _ body _ => leavesWith lenient body
  | attempt _ _ none none => false
  | attempt _ body (some (.mk _ handler)) none =>
    leavesWith lenient body && leavesWith lenient handler
  | attempt _ _ none (some finalizer) => leavesWith lenient finalizer
  | attempt _ body (some (.mk _ handler)) (some finalizer) =>
    leavesWith lenient finalizer || (leavesWith lenient body && leavesWith lenient handler)
  | _ => false

/-- Does one of the statements leave? -/
def someLeavesWith (lenient : Bool) : List (Stmt α) → Bool
  | [] => false
  | s :: rest => leavesWith lenient s || someLeavesWith lenient rest

end

/-- Does the statement leave, judged strictly? -/
def leaves (s : Stmt α) : Bool :=
  leavesWith false s

/-- Does the statement leave, judged leniently? -/
def guardLeaves (s : Stmt α) : Bool :=
  leavesWith true s

end TidyScript.Stmt
