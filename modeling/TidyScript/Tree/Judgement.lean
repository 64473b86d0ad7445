import TidyScript.Tree.Mark

/-!
# What can be said of an expression from its shape

Purity, references, the two ways to write an absent value, and binding strength.
All of these look only at the tree.
-/

namespace TidyScript

namespace Expr

variable {α : Type}

/-- Is it the literal `null` or the name `undefined`? -/
def isNullish : Expr α → Bool
  | literal _ .null => true
  | identifier _ name => name = "undefined"
  | _ => false

/-- Is it a literal? -/
def isLiteral : Expr α → Bool
  | literal _ _ => true
  | _ => false

/-- Is it the negation `!x`? -/
def isNot : Expr α → Bool
  | unary _ .not _ => true
  | _ => false

/-- Is it a name, `this`, or a chain of members below one of them, with written
or literal keys? -/
def isReference : Expr α → Bool
  | identifier _ _ => true
  | thisRef _ => true
  | member _ base (.named _) _ => base.isReference
  | member _ base (.computed key) _ => key.isLiteral && base.isReference
  | _ => false

mutual

/-- Does evaluating the expression have no effect besides its value? Reading a
property counts as pure; calls, assignments, updates, `new`, `delete` and `await`
do not, and neither does anything that builds an object or runs a template. -/
def isPure : Expr α → Bool
  | identifier _ _ => true
  | thisRef _ => true
  | literal _ .template => false
  | literal _ _ => true
  | unary _ op argument => op ≠ .delete && op ≠ .await && isPure argument
  | binary _ _ left right => isPure left && isPure right
  | logical _ _ left right => isPure left && isPure right
  | conditional _ test consequent alternate =>
    isPure test && isPure consequent && isPure alternate
  | member _ base (.named _) _ => isPure base
  | member _ base (.computed key) _ => isPure base && isPure key
  | sequence _ items => arePure items
  | function _ _ _ _ _ => true
  | _ => false

/-- Are all of the expressions pure? -/
def arePure : List (Expr α) → Bool
  | [] => true
  | item :: items => isPure item && arePure items

end

/-- How tightly an expression binds as written, where parentheses bind tightest. -/
def precedence (e : Expr Mark) : Precedence :=
  if e.isParenthesized then .primary
  else
    match e with
    | identifier _ _ => .primary
    | literal _ _ => .primary
    | thisRef _ => .primary
    | array _ _ => .primary
    | object _ _ => .primary
    | hidden _ => .primary
    | function _ _ _ _ arrow => if arrow then .assignment else .primary
    | unary _ _ _ => .unary
    | update _ _ before _ => if before then .unary else .suffix
    | binary _ op _ _ => op.precedence
    | logical _ op _ _ => op.precedence
    | conditional _ _ _ _ => .conditional
    | assignment _ _ _ _ => .assignment
    | spread _ _ => .assignment
    | member _ _ _ _ => .call
    | call _ _ _ _ => .call
    | construct _ _ _ => .call
    | sequence _ _ => .sequence

end Expr

end TidyScript
