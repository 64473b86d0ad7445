import TidyScript.Grammar.Basic

/-!
# What productions are made of

Most facts about a production follow from the same facts about the steps that it is made of. Such a
fact is a class of parses here, and it is found for a row of steps by instance inference. `Unfolds`
lets the inference go into the productions themselves: a class needs one instance that passes from
what a production is made of to the production, and not one for each production.
-/

namespace TidyScript.Grammar

variable {α : Type}

/-- The parse is made of the given steps. -/
class Unfolds (x : Parse α) (steps : outParam (Parse α)) : Type where
  eq : x = steps

section Lists

variable (close : String) (item : Parse α)

@[reducible, instance] def commaList.unfolds := Unfolds.mk (commaList.eq_1 close item)
@[reducible, instance] def commaSeparated.unfolds := Unfolds.mk (commaSeparated.eq_1 item)
@[reducible, instance] def eatPunct.unfolds := Unfolds.mk (eatPunct.eq_1 close)
@[reducible, instance] def expectPunct.unfolds := Unfolds.mk (expectPunct.eq_1 close)
@[reducible, instance] def expectKeyword.unfolds := Unfolds.mk (expectKeyword.eq_1 close)

end Lists

section Productions

variable (p : Productions) (start least : Nat) (e : Expr Mark) (parse : Parse (Expr Mark))

@[reducible, instance] def statementList.unfolds := Unfolds.mk (statementList.eq_1 p)
@[reducible, instance] def block.unfolds := Unfolds.mk (block.eq_1 p)
@[reducible, instance] def name.unfolds := Unfolds.mk name.eq_1
@[reducible, instance] def bindingTarget.unfolds := Unfolds.mk (bindingTarget.eq_1 parse)
@[reducible, instance] def params.unfolds := Unfolds.mk (params.eq_1 p)
@[reducible, instance] def functionTail.unfolds (name : Option String) :=
  Unfolds.mk (functionTail.eq_1 p start name)
@[reducible, instance] def functionExpression.unfolds :=
  Unfolds.mk (functionExpression.eq_1 p start)
@[reducible, instance] def listItem.unfolds := Unfolds.mk (listItem.eq_1 p)
@[reducible, instance] def arguments.unfolds := Unfolds.mk (arguments.eq_1 p)
@[reducible, instance] def arrayLiteral.unfolds := Unfolds.mk (arrayLiteral.eq_1 p)
@[reducible, instance] def skipModifiers.unfolds := Unfolds.mk skipModifiers.eq_1
@[reducible, instance] def objectProperty.unfolds := Unfolds.mk (objectProperty.eq_1 p)
@[reducible, instance] def objectLiteral.unfolds := Unfolds.mk (objectLiteral.eq_1 p)
@[reducible, instance] def classMember.unfolds := Unfolds.mk (classMember.eq_1 p)
@[reducible, instance] def classBody.unfolds := Unfolds.mk (classBody.eq_1 p)
@[reducible, instance] def sequence.unfolds := Unfolds.mk (sequence.eq_1 parse)
@[reducible, instance] def parenthesized.unfolds := Unfolds.mk (parenthesized.eq_1 p)
@[reducible, instance] def propertyName.unfolds := Unfolds.mk propertyName.eq_1
@[reducible, instance] def constructLink.unfolds := Unfolds.mk (constructLink.eq_1 p start e)
@[reducible, instance] def construct.unfolds := Unfolds.mk (construct.eq_1 p)
@[reducible, instance] def chainLink.unfolds := Unfolds.mk (chainLink.eq_1 p start e)
@[reducible, instance] def chain.unfolds := Unfolds.mk (chain.eq_1 p)
@[reducible, instance] def binary.unfolds := Unfolds.mk (binary.eq_1 p least)
@[reducible, instance] def conditional.unfolds := Unfolds.mk (conditional.eq_1 p)
@[reducible, instance] def arrowBody.unfolds := Unfolds.mk (arrowBody.eq_1 p)
@[reducible, instance] def arrowFunction.unfolds := Unfolds.mk (arrowFunction.eq_1 p)
@[reducible, instance] def yieldExpression.unfolds := Unfolds.mk (yieldExpression.eq_1 p)
@[reducible, instance] def assignment.unfolds := Unfolds.mk (assignment.eq_1 p)
@[reducible, instance] def expression.unfolds := Unfolds.mk (expression.eq_1 p)
@[reducible, instance] def parenthesizedTest.unfolds := Unfolds.mk (parenthesizedTest.eq_1 p)
@[reducible, instance] def declarator.unfolds := Unfolds.mk (declarator.eq_1 p)
@[reducible, instance] def declaration.unfolds (inHead : Bool) :=
  Unfolds.mk (declaration.eq_1 p inHead)
@[reducible, instance] def functionDeclaration.unfolds :=
  Unfolds.mk (functionDeclaration.eq_1 p start)
@[reducible, instance] def branch.unfolds := Unfolds.mk (branch.eq_1 p)
@[reducible, instance] def forHead.unfolds := Unfolds.mk (forHead.eq_1 p)
@[reducible, instance] def expressionUnless.unfolds (close : String) :=
  Unfolds.mk (expressionUnless.eq_1 p close)
@[reducible, instance] def forTail.unfolds (head : Option (ForHead Mark)) :=
  Unfolds.mk (forTail.eq_1 p start head)

/-- A `for` behind its head, in front of the given token. -/
def forRest (head : Option (ForHead Mark)) (token : Token) : Parse (Stmt Mark) :=
  match head with
  | some left =>
    if token.isKeyword "in" then do
      let _ ← bump
      let subject ← expression p
      let _ ← expectPunct ")"
      let body ← p.statement
      finishStmt start (.forIn · left subject body)
    else if token.isIdentifier "of" then do
      let _ ← bump
      let subject ← assignment p
      let _ ← expectPunct ")"
      let body ← p.statement
      finishStmt start (.forOf · left subject body)
    else forTail p start head
  | none => forTail p start head

theorem forLoop_eq : forLoop p = (do
    let start := (← bump).span.start
    if (← current).isIdentifier "await" then
      let _ ← bump
    let _ ← expectPunct "("
    let head ← withNoIn true (forHead p)
    forRest p start head (← current)) :=
  rfl

@[reducible, instance] def forLoop.unfolds := Unfolds.mk (forLoop_eq p)
@[reducible, instance] def whileLoop.unfolds := Unfolds.mk (whileLoop.eq_1 p)
@[reducible, instance] def doWhile.unfolds := Unfolds.mk (doWhile.eq_1 p)
@[reducible, instance] def returning.unfolds := Unfolds.mk (returning.eq_1 p)
@[reducible, instance] def throwing.unfolds := Unfolds.mk (throwing.eq_1 p)
@[reducible, instance] def jump.unfolds := Unfolds.mk jump.eq_1
@[reducible, instance] def handler?.unfolds := Unfolds.mk (handler?.eq_1 p)
@[reducible, instance] def finalizer?.unfolds := Unfolds.mk (finalizer?.eq_1 p)
@[reducible, instance] def attempt.unfolds := Unfolds.mk (attempt.eq_1 p)
@[reducible, instance] def atCaseEnd.unfolds := Unfolds.mk atCaseEnd.eq_1
@[reducible, instance] def switchCase.unfolds := Unfolds.mk (switchCase.eq_1 p)
@[reducible, instance] def switch.unfolds := Unfolds.mk (switch.eq_1 p)
@[reducible, instance] def skipClause.unfolds := Unfolds.mk skipClause.eq_1
@[reducible, instance] def exportClause.unfolds := Unfolds.mk (exportClause.eq_1 p)
@[reducible, instance] def withScope.unfolds := Unfolds.mk (withScope.eq_1 p)
@[reducible, instance] def labeled.unfolds := Unfolds.mk (labeled.eq_1 p)
@[reducible, instance] def expressionStatement.unfolds := Unfolds.mk (expressionStatement.eq_1 p)

end Productions

/-- **The statements that are told by their first tokens.** What holds of all of their productions
holds of the one that is found. -/
theorem of_statementAhead? {motive : Parse (Stmt Mark) → Prop} {p : Productions} {s : State}
    {production : Parse (Stmt Mark)} (found : statementAhead? p s = some production)
    (braces : motive (block p))
    (semicolon : s.current.isPunct ";" = true → motive do
      let _ ← bump
      finishStmt s.current.span.start .empty)
    (async : s.current.kind = .identifier → motive do
      let _ ← bump
      functionDeclaration p s.current.span.start)
    (label : s.current.kind = .identifier → (s.peek 1).isPunct ":" = true → motive (labeled p))
    (keyword : s.current.kind = .keyword → motive (declaration p false) ∧
      motive (functionDeclaration p s.current.span.start) ∧ motive (branch p) ∧
      motive (forLoop p) ∧ motive (whileLoop p) ∧ motive (doWhile p) ∧ motive (returning p) ∧
      motive (throwing p) ∧ motive jump ∧ motive (attempt p) ∧ motive (switch p) ∧
      motive (exportClause p) ∧ motive (withScope p) ∧
      motive (do classBody p; finishStmt s.current.span.start .hidden) ∧
      motive (do skipClause; finishStmt s.current.span.start .hidden) ∧
      motive (do let _ ← bump; endStatement; finishStmt s.current.span.start .hidden)) :
    motive production := by
  unfold statementAhead? at found
  dsimp only at found
  split at found
  · next kind =>
    split at found
    · cases found
      exact braces
    · split at found <;> cases found
      next text => exact semicolon (by simp [Token.isPunct, kind, text])
  · next kind =>
    unfold keywordStatement? at found
    dsimp only at found
    split at found
    case h_16 => split at found <;> cases found; simp only [keyword kind]
    all_goals cases found <;> simp only [keyword kind]
  · next kind =>
    split at found
    · cases found
      exact async kind
    · split at found <;> cases found
      next colon => exact label kind colon
  · cases found

end TidyScript.Grammar
