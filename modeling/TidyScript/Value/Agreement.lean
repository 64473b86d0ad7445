import TidyScript.Value.Evaluation

/-!
# Do two expressions agree?

Two expressions agree over a domain when they have the same value however their names
are bound to values of the domain. The search goes through all assignments, the first
name changing fastest, and stops at the first one where the values differ or one of the
expressions has none.
-/

namespace TidyScript

/-- An assignment under which two expressions differ. -/
structure Disagreement where
  bindings : List (String × Value)
  before : Value
  after : Value

/-- The wording of a disagreement. -/
def Disagreement.message (d : Disagreement) : String :=
  let bindings := d.bindings.map fun pair => pair.1 ++ " = " ++ pair.2.literal
  "with " ++ ", ".intercalate bindings ++ " the original gives " ++ d.before.literal ++
    " but the rewrite gives " ++ d.after.literal

/-- The most names for which all assignments are tried. -/
def maxNames : Nat := 6

/-- A name put in its place among names in order, unless it is there. -/
def insertName (name : String) : List String → List String
  | [] => [name]
  | other :: names =>
    if name = other then other :: names
    else if name < other then name :: other :: names
    else other :: insertName name names

/-- The name that an expression consists of, if it has to be bound. -/
def Expr.freeName? {α : Type} : Expr α → Option String
  | .identifier _ name => if (wellKnown? name).isSome then none else some name
  | _ => none

/-- The names that occur in a program and have to be bound. -/
def Program.freeNames (program : Program) : List String :=
  program.exprs.toList.filterMap Expr.freeName?

/-- The names that have to be bound in either program, in order. -/
def allNames (first second : Program) : List String :=
  (first.freeNames ++ second.freeNames).foldl (fun names name => insertName name names) []

/-- Searches all assignments of domain values to the names, the last of which come
first, on top of the bindings made already. -/
def searchDisagreement (domain : List Value)
    (compare : List (String × Value) → Except EvalError (Option Disagreement)) :
    (names : List String) → (bound : List (String × Value)) →
      Except EvalError (Option Disagreement)
  | [], bound => compare bound
  | name :: names, bound =>
    domain.findSomeM? fun value => searchDisagreement domain compare names ((name, value) :: bound)

/-- The values of two expressions under given bindings, if they differ. -/
def compareUnder (first second : Program × Expr Mark) (bound : List (String × Value)) :
    Except EvalError (Option Disagreement) := do
  let bindings := Bindings.ofList bound
  let before ← first.1.eval bindings first.2
  let after ← second.1.eval bindings second.2
  return if before.same after then none else some ⟨bound, before, after⟩

/-- The first assignment under which two expressions differ. -/
def disagreement? (before after : String) (domain : List Value) :
    Except EvalError (Option Disagreement) := do
  let first ← (Program.parseExpression before).mapError .parse
  let second ← (Program.parseExpression after).mapError .parse
  let names := allNames first.1 second.1
  if names.length > maxNames then throw (.tooManyNames names.length)
  searchDisagreement domain (compareUnder first second) names.reverse []

end TidyScript
