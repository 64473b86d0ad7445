import TidyScript.Program.Source
import TidyScript.Value.Operation

/-!
# Evaluating expressions

Expressions without effects are evaluated over bindings of names to primitive values.
The names `undefined`, `NaN` and `Infinity` have their usual values unless they are
bound. Evaluation gets stuck at a name that is not bound and at an expression of a kind
that is not evaluated.
-/

namespace TidyScript

/-- The values bound to names. -/
abbrev Bindings := String → Option Value

namespace Bindings

/-- No name is bound. -/
def none : Bindings := fun _ => .none

/-- One more binding, which hides an earlier one of the same name. -/
def bind (bindings : Bindings) (name : String) (value : Value) : Bindings :=
  fun other => if other = name then some value else bindings other

/-- The bindings of a list, the first one of each name. -/
def ofList (pairs : List (String × Value)) : Bindings :=
  fun name => pairs.lookup name

end Bindings

/-- Why evaluation gets stuck. -/
inductive Stuck (α : Type) where
  /-- At a node of a kind that is not evaluated, or an operator without a result. -/
  | unsupported (mark : α)
  | unbound (name : String)

/-- The value of a name that has one without being bound. -/
def wellKnown? (name : String) : Option Value :=
  if name = "undefined" then some .undefined
  else if name = "NaN" then some (.number Number.nan)
  else if name = "Infinity" then some (.number (1 / 0))
  else none

/-- The value of a literal. -/
def Literal.value? : Literal → Option Value
  | .null => some .null
  | .boolean b => some (.boolean b)
  | .number x _ => some (.number x)
  | .string s => some (.string s)
  | .regex => none
  | .template => none

namespace Expr

variable {α : Type}

/-- A result, or being stuck at a mark. -/
def orStuck (mark : α) : Option Value → Except (Stuck α) Value
  | some value => .ok value
  | none => .error (.unsupported mark)

/-- The value of a name. -/
def evalName (bindings : Bindings) (name : String) : Except (Stuck α) Value :=
  match (bindings name).or (wellKnown? name) with
  | some value => .ok value
  | none => .error (.unbound name)

mutual

/-- The value of an expression. -/
def eval (bindings : Bindings) : Expr α → Except (Stuck α) Value
  | identifier _ name => evalName bindings name
  | literal mark value => orStuck mark value.value?
  | unary mark op argument => do
    let value ← eval bindings argument
    orStuck mark (op.result? value)
  | binary mark op left right => do
    let a ← eval bindings left
    let b ← eval bindings right
    orStuck mark (op.result? a b)
  | logical _ op left right => do
    let a ← eval bindings left
    if op.stopsAt a then return a else eval bindings right
  | conditional _ test consequent alternate => do
    let value ← eval bindings test
    if value.isTruthy then eval bindings consequent else eval bindings alternate
  | sequence _ items => evalLast bindings .undefined items
  | e => .error (.unsupported e.mark)

/-- Evaluates expressions in a row and gives the value of the last, or `last` if there
is none. -/
def evalLast (bindings : Bindings) (last : Value) : List (Expr α) → Except (Stuck α) Value
  | [] => .ok last
  | item :: items => do
    let value ← eval bindings item
    evalLast bindings value items

end

end Expr

/-- Why a source has no value. -/
inductive EvalError where
  | parse (error : ParseError)
  /-- A part of the source is of a kind that is not evaluated. -/
  | unsupported (text : String)
  | unbound (name : String)
  /-- There are too many names to try all values for them. -/
  | tooManyNames (count : Nat)
  | fault (cause : Fault)

/-- The wording of an evaluation error. A fault is not worded: it is no answer about
the source. -/
def EvalError.message : EvalError → String
  | .parse error => error.message
  | .unsupported text => "cannot evaluate `" ++ text ++ "`"
  | .unbound name => "no value bound to `" ++ name ++ "`"
  | .tooManyNames count => toString count ++ " free variables are too many to enumerate"
  | .fault _ => ""

namespace Program

/-- The value of an expression of a program. -/
def eval (program : Program) (bindings : Bindings) (e : Expr Mark) : Except EvalError Value :=
  match e.eval bindings with
  | .ok value => .ok value
  | .error (.unbound name) => .error (.unbound name)
  | .error (.unsupported mark) =>
    match program.text mark.span with
    | .ok text => .error (.unsupported text)
    | .error cause => .error (.fault cause)

end Program

/-- The value of a source that is a single expression. -/
def evalSource (bindings : Bindings) (source : String) : Except EvalError Value := do
  let (program, e) ← (Program.parseExpression source).mapError .parse
  program.eval bindings e

end TidyScript
