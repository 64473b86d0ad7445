import TidyScript.Logic.Law
import TidyScript.Program.Place
import TidyScript.Rule.Basic

/-!
# The two rules on expressions

`de-morgan` reports the negation of a connective or a comparison that the negation can
move into. A double negation is left alone, since it turns a value into a boolean.
`simplify-logic` reports logical expressions that a law shortens. Both put the new text
in the place of the expression, in parentheses if the place asks for them.
-/

namespace TidyScript.Program

/-- Puts a text in the place of an expression. -/
def replace (program : Program) (e : Expr Mark) (new : Fragment) : Fix :=
  let text :=
    if program.replacementNeedsParens e new.precedence then "(" ++ new.text ++ ")" else new.text
  .single ⟨e.span, text⟩

/-- Is the expression the operand of a negation? -/
def underNot (program : Program) (e : Expr Mark) : Bool :=
  match program.parent? (.expr e.index) with
  | some (.expr parent) => parent.isNot
  | _ => false

/-- What kind of negation it is, by the operand: its name and its wording. -/
def negationKind? {α : Type} : Expr α → Option (String × String)
  | .logical _ _ _ _ =>
    some ("negated-logical", "Negated logical expression can be distributed with De Morgan's law")
  | .binary _ _ _ _ =>
    some ("negated-comparison", "Negated comparison can use the complementary operator")
  | _ => none

/-- The report on a negation that can move inward. -/
def negationReport? (program : Program) (e : Expr Mark) : Except Fault (Option Report) :=
  match e with
  | .unary _ .not argument =>
    match negationKind? argument with
    | some (id, message) =>
      if !program.underNot e && !argument.isNot && argument.isNegatable then do
        let new ← program.negation argument
        return some {
          rule := .deMorgan, id := id, message := message, span := e.span
          fix := some (program.replace e new) }
      else return none
    | none => return none
  | _ => return none

/-- The report on a logical expression that can be shortened. -/
def shorteningReport? (program : Program) (e : Expr Mark) : Except Fault (Option Report) := do
  match ← program.shorten? e with
  | some shortening =>
    return some {
      rule := .simplifyLogic, id := shortening.law.id
      message := "Expression can be simplified to `" ++ shortening.replacement.text ++ "`"
      span := e.span
      fix := some (program.replace e shortening.replacement) }
  | none => return none

end TidyScript.Program
