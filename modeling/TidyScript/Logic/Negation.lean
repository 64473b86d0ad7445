import TidyScript.Program.Source

/-!
# Negating an expression

The negation of an expression as source text, with the negation moved inward as far
as it goes: a negation is dropped, a comparison becomes its complement, and a
connective becomes its dual over negated operands. Any other expression is wrapped in
`!(…)`. Together with the text comes the strength by which it binds, so that whoever
places it knows whether it needs parentheses.
-/

namespace TidyScript

/-- A piece of source text with the strength by which it binds. -/
structure Fragment where
  text : String
  precedence : Precedence
deriving DecidableEq, Repr

namespace Fragment

/-- The text, in parentheses if it needs them as an operand of an operator that
binds with strength `parent`. -/
def operand (fragment : Fragment) (parent : Precedence) (right : Bool) : String :=
  if fragment.precedence.needsParens parent right then "(" ++ fragment.text ++ ")"
  else fragment.text

end Fragment

namespace Program

/-- An expression as written, with its parentheses. -/
def fragment (program : Program) (e : Expr Mark) : Except Fault Fragment := do
  return ⟨← program.exprSource e, e.precedence⟩

/-- The text `!(…)` around an expression. -/
def wrappedNegation (program : Program) (e : Expr Mark) : Except Fault Fragment := do
  return ⟨"!(" ++ (← program.exprText e) ++ ")", .unary⟩

/-- The negation of an expression. -/
def negation (program : Program) : Expr Mark → Except Fault Fragment
  | .unary _ .not argument => program.fragment argument
  | e@(.binary _ op left right) =>
    match op.complement? with
    | some complement => do
      let left ← program.exprSource left
      let right ← program.exprSource right
      return ⟨left ++ " " ++ complement.text ++ " " ++ right, complement.precedence⟩
    | none => program.wrappedNegation e
  | e@(.logical _ op left right) =>
    match op.dual? with
    | some dual => do
      let left ← program.negation left
      let right ← program.negation right
      let text := left.operand dual.precedence false ++ " " ++ dual.text ++ " " ++
        right.operand dual.precedence true
      return ⟨"(" ++ text ++ ")", .primary⟩
    | none => program.wrappedNegation e
  | e => program.wrappedNegation e

end Program

/-- Does negation move inward here? It does not for `??` and for operators that are
not comparisons. -/
def Expr.isNegatable {α : Type} : Expr α → Bool
  | .binary _ op _ _ => op.isComparison
  | .logical _ op _ _ => op.dual?.isSome
  | _ => true

end TidyScript
