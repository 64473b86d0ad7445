import TidyScript.Grammar.Expression

/-!
# Statements

The productions of statements. Semicolons may be left out before a closing brace, a
line break or the end of the source. Imports, exports, classes, `with` and
`debugger` are read to their end and become hidden statements; the nodes read on the
way stay in the table without a parent.
-/

namespace TidyScript.Grammar

variable (p : Productions)

/-- A test in parentheses. -/
def parenthesizedTest : Parse (Expr Mark) := do
  let _ ← expectPunct "("
  let test ← expression p
  let _ ← expectPunct ")"
  return test

/-- A declared pattern with its initial value. -/
def declarator : Parse (Declarator Mark) := do
  let pattern ← bindingTarget (primary p)
  let init ← if ← eatPunct "=" then pure (some (← assignment p)) else pure none
  return ⟨pattern, init⟩

/-- The kind of declaration that a word introduces. -/
def declarationKind (word : String) : DeclarationKind :=
  if word = "var" then .var else if word = "let" then .let else .const

/-- A declaration of variables. In the head of a loop it does not end a statement. -/
def declaration (inHead : Bool) : Parse (Stmt Mark) := do
  let word ← bump
  let declarators ← commaSeparated (declarator p)
  if !inHead then endStatement
  finishStmt word.span.start (.declaration · (declarationKind word.text) declarators)

/-- A declaration of a function. -/
def functionDeclaration (start : Nat) : Parse (Stmt Mark) := do
  let _ ← expectKeyword "function"
  let _ ← eatPunct "*"
  if ← atName then
    let name := (← bump).text
    let params ← params p
    let body ← statementList p
    finishStmt start (.function · name params body)
  else expected "function name"

/-- An `if`. -/
def branch : Parse (Stmt Mark) := do
  let start := (← bump).span.start
  let test ← parenthesizedTest p
  let consequent ← p.statement
  if ← atKeyword "else" then
    let _ ← bump
    let alternate ← p.statement
    finishStmt start (.branch · test consequent (some alternate))
  else finishStmt start (.branch · test consequent none)

/-! ## Loops -/

/-- Is the next token a word that introduces a declaration? -/
def State.declarationAhead (state : State) : Bool :=
  state.current.isKeyword "var" || state.current.isKeyword "let" ||
    state.current.isKeyword "const"

/-- The head of a `for` up to its first semicolon, `in` or `of`. -/
def forHead : Parse (Option (ForHead Mark)) := do
  let state ← get
  if state.current.isPunct ";" then return none
  else if state.declarationAhead then return some (.declaration (← declaration p true))
  else return some (.pattern (← expression p))

/-- An expression, unless the given punctuator comes next. -/
def expressionUnless (close : String) : Parse (Option (Expr Mark)) := do
  if ← atPunct close then return none else return some (← expression p)

/-- The head of a `for` with semicolons as a statement. -/
def forInit : Option (ForHead Mark) → Parse (Option (Stmt Mark))
  | none => return none
  | some (.declaration value) => return some value
  | some (.pattern target) => return some (← pushStmt target.outer (.expression · target))

/-- A `for` with semicolons, behind its first part. -/
def forTail (start : Nat) (head : Option (ForHead Mark)) : Parse (Stmt Mark) := do
  let init ← forInit head
  let _ ← expectPunct ";"
  let test ← expressionUnless p ";"
  let _ ← expectPunct ";"
  let update ← expressionUnless p ")"
  let _ ← expectPunct ")"
  let body ← p.statement
  finishStmt start (.forLoop · init test update body)

/-- A `for` of any kind. -/
def forLoop : Parse (Stmt Mark) := do
  let start := (← bump).span.start
  if (← current).isIdentifier "await" then
    let _ ← bump
  let _ ← expectPunct "("
  let head ← withNoIn true (forHead p)
  let token ← current
  match head with
  | some left =>
    if token.isKeyword "in" then
      let _ ← bump
      let subject ← expression p
      let _ ← expectPunct ")"
      let body ← p.statement
      finishStmt start (.forIn · left subject body)
    else if token.isIdentifier "of" then
      let _ ← bump
      let subject ← assignment p
      let _ ← expectPunct ")"
      let body ← p.statement
      finishStmt start (.forOf · left subject body)
    else forTail p start head
  | none => forTail p start head

/-- A `while`. -/
def whileLoop : Parse (Stmt Mark) := do
  let start := (← bump).span.start
  let test ← parenthesizedTest p
  let body ← p.statement
  finishStmt start (.whileLoop · test body)

/-- A `do` with its `while`. -/
def doWhile : Parse (Stmt Mark) := do
  let start := (← bump).span.start
  let body ← p.statement
  let _ ← expectKeyword "while"
  let test ← parenthesizedTest p
  let _ ← eatPunct ";"
  finishStmt start (.doWhile · body test)

/-! ## Jumps -/

/-- A `return`. Its value has to start on the same line. -/
def returning : Parse (Stmt Mark) := do
  let start := (← bump).span.start
  let token ← current
  let bare := token.isPunct ";" || token.isPunct "\x7d" || token.kind = .eof ||
    token.newlineBefore
  let value ← if bare then pure none else pure (some (← expression p))
  endStatement
  finishStmt start (.returning · value)

/-- A `throw`. -/
def throwing : Parse (Stmt Mark) := do
  let start := (← bump).span.start
  let value ← expression p
  endStatement
  finishStmt start (.throwing · value)

/-- A `break` or `continue`. Its label has to stand on the same line. -/
def jump : Parse (Stmt Mark) := do
  let word ← bump
  let token ← current
  let label ←
    if token.kind = .identifier && !token.newlineBefore then pure (some (← bump).text)
    else pure none
  endStatement
  finishStmt word.span.start fun mark =>
    if word.text = "break" then .breaking mark label else .continuing mark label

/-! ## Compound statements -/

/-- The handler of a `try`, if there is one. -/
def handler? : Parse (Option (Handler Mark)) := do
  if ← atKeyword "catch" then
    let _ ← bump
    let param ←
      if ← eatPunct "(" then
        let target ← bindingTarget (primary p)
        let _ ← expectPunct ")"
        pure (some target)
      else pure none
    return some ⟨param, ← block p⟩
  else return none

/-- The `finally` of a `try`, if there is one. -/
def finalizer? : Parse (Option (Stmt Mark)) := do
  if ← atKeyword "finally" then
    let _ ← bump
    return some (← block p)
  else return none

/-- A `try`. -/
def attempt : Parse (Stmt Mark) := do
  let start := (← bump).span.start
  let body ← block p
  let handler ← handler? p
  let finalizer ← finalizer? p
  if handler.isNone && finalizer.isNone then expected "'catch' or 'finally'"
  else finishStmt start (.attempt · body handler finalizer)

/-- Does the next token end the statements of a case? -/
def atCaseEnd : Parse Bool := do
  let token ← current
  return token.isKeyword "case" || token.isKeyword "default" || token.isPunct "\x7d"

/-- A case of a `switch`. -/
def switchCase : Parse (SwitchCase Mark) := do
  let test ←
    if ← atKeyword "case" then
      let _ ← bump
      pure (some (← expression p))
    else
      let _ ← expectKeyword "default"
      pure none
  let _ ← expectPunct ":"
  let consequent ← manyUntil atCaseEnd do
    if ← atEnd then expected "'\x7d'"
    p.statement
  return ⟨test, consequent⟩

/-- A `switch`. -/
def switch : Parse (Stmt Mark) := do
  let start := (← bump).span.start
  let subject ← parenthesizedTest p
  let _ ← expectPunct "\x7b"
  let cases ← manyUntil (eatPunct "\x7d") (switchCase p)
  finishStmt start (.switch · subject cases)

/-- Passes over an import or export clause. -/
def skipClause : Parse Unit := do
  bumpMany (clauseLength 0 false (← get).rest)

/-- An `export`. -/
def exportClause : Parse (Stmt Mark) := do
  let start := (← bump).span.start
  let state ← get
  if state.current.isKeyword "default" then
    let _ ← bump
    let state ← get
    if state.current.isKeyword "function" || state.current.isKeyword "class" then
      if state.declarationNamed then
        let _ ← p.statement
      else
        let _ ← primary p
    else
      let _ ← assignment p
      endStatement
  else if state.current.isPunct "\x7b" || state.current.isPunct "*" then skipClause
  else
    let _ ← p.statement
  finishStmt start .hidden

/-- A `with`. -/
def withScope : Parse (Stmt Mark) := do
  let start := (← bump).span.start
  let _ ← parenthesizedTest p
  let _ ← p.statement
  finishStmt start .hidden

/-- A statement with a label. -/
def labeled : Parse (Stmt Mark) := do
  let label ← bump
  let _ ← bump
  let body ← p.statement
  finishStmt label.span.start (.labeled · label.text body)

/-- An expression as a statement. -/
def expressionStatement : Parse (Stmt Mark) := do
  let start := (← current).span.start
  let value ← expression p
  endStatement
  finishStmt start (.expression · value)

/-! ## Any statement -/

/-- The production that a keyword at the start of a statement leads to. -/
def keywordStatement? (state : State) : Option (Parse (Stmt Mark)) :=
  let start := state.current.span.start
  let next := state.peek 1
  match state.current.text with
  | "var" => some (declaration p false)
  | "let" => some (declaration p false)
  | "const" => some (declaration p false)
  | "function" => some (functionDeclaration p start)
  | "if" => some (branch p)
  | "for" => some (forLoop p)
  | "while" => some (whileLoop p)
  | "do" => some (doWhile p)
  | "return" => some (returning p)
  | "throw" => some (throwing p)
  | "break" => some jump
  | "continue" => some jump
  | "try" => some (attempt p)
  | "switch" => some (switch p)
  | "class" => some do
    classBody p
    finishStmt start .hidden
  | "import" =>
    if next.isPunct "(" || next.isPunct "." then none
    else some do
      skipClause
      finishStmt start .hidden
  | "export" => some (exportClause p)
  | "with" => some (withScope p)
  | "debugger" => some do
    let _ ← bump
    endStatement
    finishStmt start .hidden
  | _ => none

/-- The production that the next tokens lead to, when they start a statement that
is not an expression. -/
def statementAhead? (state : State) : Option (Parse (Stmt Mark)) :=
  let token := state.current
  match token.kind with
  | .punctuator =>
    if token.text = "\x7b" then some (block p)
    else if token.text = ";" then some do
      let _ ← bump
      finishStmt token.span.start .empty
    else none
  | .keyword => keywordStatement? p state
  | .identifier =>
    if state.asyncFunctionAhead then some do
      let _ ← bump
      functionDeclaration p token.span.start
    else if (state.peek 1).isPunct ":" then some (labeled p)
    else none
  | _ => none

/-- Any statement. -/
def statement : Parse (Stmt Mark) := do
  match statementAhead? p (← get) with
  | some production => production
  | none => expressionStatement p

end TidyScript.Grammar
