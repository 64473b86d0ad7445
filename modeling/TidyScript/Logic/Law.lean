import TidyScript.Logic.Equivalence
import TidyScript.Logic.Negation

/-!
# Laws that shorten logical expressions

For a connective `∘` among `&&`, `||` and `??`:

* tautology: `x ∘ x` is `x`, for a name `x`;
* absorption: `X || (X && Y)` and `X && (X || Y)` are `X`;
* distribution: `(X ∘ A) • (X ∘ B)` is `X ∘ (A • B)`;
* folding of conditionals that share their alternative `F`, which is `null` or
  `undefined`:
  * `(Q ? A : F) ∘ (Q ? B : F)` is `Q ? (A ∘ B) : F`;
  * `(Q ? A : F) ∘ (!Q ? B : F)` is `Q ? (A ∘ F) : B`, for `||` and `??`;
  * `(!Q ? A : F) ∘ (Q ? B : F)` is `Q ? B : (A ∘ F)`, for `||` and `??`;
  * `(P ? A : F) || (Q ? B : F)` is `P && A ? A : Q ? B : F`.

Operands are compared by their tokens only. What is evaluated a different number of
times after the change has to be pure. The new text is put together from the texts of
the operands.
-/

namespace TidyScript

/-- The law by which an expression is shortened. -/
inductive Law where
  | tautology
  | absorption
  | distribution
  | ternaryFold
deriving DecidableEq, Repr

/-- The name of a law in reports. -/
def Law.id : Law → String
  | .tautology => "tautology"
  | .absorption => "absorption"
  | .distribution => "distribution"
  | .ternaryFold => "ternary-fold"

/-- What an expression can be shortened to, and by which law. -/
structure Shortening where
  law : Law
  replacement : Fragment
deriving DecidableEq, Repr

namespace Program

/-! ## Operands -/

/-- An expression as an operand under strength `parent`. -/
def operand (program : Program) (e : Expr Mark) (parent : Precedence) (right : Bool) :
    Except Fault String := do
  return (← program.fragment e).operand parent right

/-- An expression as the test of a conditional. -/
def testOperand (program : Program) (e : Expr Mark) : Except Fault String := do
  let fragment ← program.fragment e
  return if fragment.precedence ≤ .conditional then "(" ++ fragment.text ++ ")" else fragment.text

/-- An expression as a branch of a conditional. -/
def branchOperand (program : Program) (e : Expr Mark) : Except Fault String :=
  program.operand e .assignment false

/-- Two expressions joined by a connective. -/
def joined (program : Program) (op : LogicalOp) (a b : Expr Mark) : Except Fault String := do
  let left ← program.operand a op.precedence false
  let right ← program.operand b op.precedence true
  return left ++ " " ++ op.text ++ " " ++ right

/-- Is the first expression the negation of the second? -/
def negates (program : Program) (negated base : Expr Mark) : Bool :=
  match negated with
  | .unary _ .not argument => program.sameExpr argument base
  | _ => false

/-! ## The laws -/

/-- `x ∘ x` is `x`. -/
def tautology? (left right : Expr Mark) : Option Shortening :=
  match left, right with
  | .identifier _ a, .identifier _ b => if a = b then some ⟨.tautology, ⟨a, .primary⟩⟩ else none
  | _, _ => none

/-- `X ∘ (X • Y)` is `X` for dual connectives. -/
def absorption? (program : Program) (op : LogicalOp) (left right : Expr Mark) :
    Except Fault (Option Shortening) :=
  match op.dual?, right with
  | some dual, .logical _ inner innerLeft _ =>
    if inner = dual && left.isPure && program.sameExpr left innerLeft then do
      return some ⟨.absorption, ← program.fragment left⟩
    else return none
  | _, _ => return none

/-- `(X ∘ A) • (X ∘ B)` is `X ∘ (A • B)`. -/
def distribution? (program : Program) (outer : LogicalOp) (left right : Expr Mark) :
    Except Fault (Option Shortening) :=
  match left, right with
  | .logical _ op x a, .logical _ other y b =>
    if op = other && x.isPure && program.sameExpr x y then do
      let grouped ← program.joined outer a b
      let shared ← program.operand x op.precedence false
      let text := shared ++ " " ++ op.text ++ " (" ++ grouped ++ ")"
      return some ⟨.distribution, ⟨text, op.precedence⟩⟩
    else return none
  | _, _ => return none

/-- Can a connective move past a left side that is `null` or `undefined`? -/
def passesNullish : LogicalOp → Bool
  | .and => false
  | .or => true
  | .coalesce => true

/-- A conditional, put together from its parts. -/
def foldedTernary (test consequent alternate : String) : Shortening :=
  ⟨.ternaryFold, ⟨test ++ " ? " ++ consequent ++ " : " ++ alternate, .conditional⟩⟩

/-- Two conditionals with the alternative `fallback` in common. -/
def foldWith (program : Program) (op : LogicalOp) (fallback test₁ value₁ test₂ value₂ : Expr Mark) :
    Except Fault (Option Shortening) := do
  if program.sameExpr test₁ test₂ then
    let test ← program.testOperand test₁
    let both ← program.joined op value₁ value₂
    return some (foldedTernary test ("(" ++ both ++ ")") (← program.exprSource fallback))
  else if program.negates test₂ test₁ then
    if passesNullish op then
      let test ← program.testOperand test₁
      let first ← program.joined op value₁ fallback
      return some (foldedTernary test ("(" ++ first ++ ")") (← program.branchOperand value₂))
    else return none
  else if program.negates test₁ test₂ then
    if passesNullish op then
      let test ← program.testOperand test₂
      let first ← program.joined op value₁ fallback
      return some (foldedTernary test (← program.branchOperand value₂) ("(" ++ first ++ ")"))
    else return none
  else if op = .or && value₁.isPure then
    let test ← program.operand test₁ .logicalAnd false
    let guard ← program.operand value₁ .logicalAnd true
    let inner := foldedTernary (← program.testOperand test₂) (← program.branchOperand value₂)
      (← program.exprSource fallback)
    return some (foldedTernary (test ++ " && " ++ guard) (← program.branchOperand value₁)
      inner.replacement.text)
  else return none

/-- Two conditionals under a connective. -/
def ternaryFold? (program : Program) (op : LogicalOp) (left right : Expr Mark) :
    Except Fault (Option Shortening) :=
  match left, right with
  | .conditional _ test₁ value₁ fallback, .conditional _ test₂ value₂ other =>
    if fallback.isNullish && program.sameExpr fallback other && test₁.isPure && test₂.isPure then
      program.foldWith op fallback test₁ value₁ test₂ value₂
    else return none
  | _, _ => return none

/-- What an expression can be shortened to, by the first law that applies. -/
def shorten? (program : Program) : Expr Mark → Except Fault (Option Shortening)
  | .logical _ op left right => do
    if let some shortening := tautology? left right then return some shortening
    if let some shortening ← program.absorption? op left right then return some shortening
    if let some shortening ← program.distribution? op left right then return some shortening
    program.ternaryFold? op left right
  | _ => return none

end Program

end TidyScript
