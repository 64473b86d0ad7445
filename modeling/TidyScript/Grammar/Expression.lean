import TidyScript.Grammar.Infix
import TidyScript.Grammar.Lookahead

/-!
# Expressions

The productions of expressions, from the tightest to the loosest. A production that
comes before its own start in this order is reached through `Productions`, and only
after a token has been taken.

The word `in` is an operator again inside brackets of nearly every kind, also in the
head of a loop. The brackets of an optional member, of a member under `new` and of a
computed key of an object keep the mode they are found in, the last one because the
braces around it have set it already.
-/

namespace TidyScript.Grammar

variable (p : Productions)

/-! ## Parts of functions -/

/-- The statements between two braces. -/
def statementList : Parse (List (Stmt Mark)) := do
  let _ ← expectPunct "\x7b"
  let body ← manyUntil (atPunct "\x7d") do
    if ← atEnd then expected "'\x7d'"
    p.statement
  let _ ← bump
  return body

/-- A block as a statement. -/
def block : Parse (Stmt Mark) := do
  let start := (← current).span.start
  let body ← statementList p
  finishStmt start (.block · body)

/-- A name, as an expression. -/
def name : Parse (Expr Mark) := do
  let token ← bump
  pushExpr token.span (.identifier · token.text)

/-- What a declaration, a rest parameter or a handler binds. -/
def bindingTarget (primary : Parse (Expr Mark)) : Parse (Expr Mark) := do
  if (← atPunct "\x7b") || (← atPunct "[") then primary
  else if ← atName then name
  else expected "binding name"

/-- The parameters of a function, in their parentheses. -/
def params : Parse (List (Expr Mark)) := do
  let _ ← expectPunct "("
  withNoIn false <| commaList ")" do
    if ← atPunct "..." then
      let start := (← bump).span.start
      let target ← bindingTarget p.primary
      finishExpr start (.spread · target)
    else p.assignment

/-- Parameters and body of a function that starts at `start`, with its name. -/
def functionTail (start : Nat) (name : Option String) : Parse (Expr Mark) := do
  let params ← params p
  let body ← statementList p
  finishExpr start (.function · name params (.block body) false)

/-- A function expression. -/
def functionExpression (start : Nat) : Parse (Expr Mark) := do
  let _ ← expectKeyword "function"
  let _ ← eatPunct "*"
  let name ← if ← atName then pure (some (← bump).text) else pure none
  functionTail p start name

/-! ## Literals with parts -/

/-- An expression of a list, which may be spread. -/
def listItem : Parse (Expr Mark) := do
  if ← atPunct "..." then
    let start := (← bump).span.start
    let value ← p.assignment
    finishExpr start (.spread · value)
  else p.assignment

/-- The arguments of a call, in their parentheses. -/
def arguments : Parse (List (Expr Mark)) := do
  let _ ← expectPunct "("
  withNoIn false <| commaList ")" (listItem p)

/-- An array literal. A comma where an item could start leaves an item out. -/
def arrayLiteral : Parse (Expr Mark) := do
  let start := (← expectPunct "[").span.start
  let elements ← withNoIn false do
    let elements ← manyUntil (atPunct "]") do
      if ← eatPunct "," then return Element.hole
      let value ← listItem p
      if !(← atPunct "]") then
        let _ ← expectPunct ","
      return Element.item value
    let _ ← bump
    return elements
  finishExpr start (.array · elements)

/-- Passes over modifiers in front of a method name. -/
def skipModifiers : Parse Unit :=
  extend (fun _ => do
    if (← get).modifierAhead then
      let _ ← bump
      return some ()
    else return none) ()

/-- The key of a property. -/
def propertyKey : Parse (Key Mark) := do
  let token ← current
  match token.kind with
  | .identifier => let _ ← bump; return .named token.text
  | .keyword => let _ ← bump; return .named token.text
  | .number => let _ ← bump; return .named token.text
  | .string value => let _ ← bump; return .named value
  | _ =>
    if token.isPunct "[" then
      let _ ← bump
      let key ← p.assignment
      let _ ← expectPunct "]"
      return .computed key
    else expected "property key"

/-- A property of an object literal: a method, a key with its value, or a name that
is both, possibly with a default. -/
def objectProperty : Parse (ObjectMember Mark) := do
  let start := (← current).span.start
  skipModifiers
  let token ← current
  let key ← propertyKey p
  if ← atPunct "(" then
    return .property key (← functionTail p start none)
  else if ← eatPunct ":" then
    return .property key (← p.assignment)
  else
    let target ← pushExpr token.span (.identifier · token.text)
    if ← eatPunct "=" then
      let value ← p.assignment
      return .property key (← finishExpr token.span.start (.assignment · "=" target value))
    else return .property key target

/-- An object literal. -/
def objectLiteral : Parse (Expr Mark) := do
  let start := (← expectPunct "\x7b").span.start
  let members ← withNoIn false <| commaList "\x7d" do
    if ← atPunct "..." then
      let start := (← bump).span.start
      let value ← p.assignment
      return ObjectMember.spread (← finishExpr start (.spread · value))
    else objectProperty p
  finishExpr start (.object · members)

/-! ## Classes -/

/-- The name of a class member, or its computed key. -/
def classKey : Parse Unit := do
  let token ← current
  match token.kind with
  | .identifier => let _ ← bump
  | .keyword => let _ ← bump
  | .number => let _ ← bump
  | .string _ => let _ ← bump
  | _ =>
    if token.isPunct "[" then
      let _ ← bump
      let _ ← p.assignment
      let _ ← expectPunct "]"
    else expected "class member"

/-- A member of a class. -/
def classMember : Parse Unit := do
  if ← atEnd then expected "'\x7d'"
  if ← eatPunct ";" then return
  if (← current).isIdentifier "static" && (← peek 1).isPunct "\x7b" then
    let _ ← bump
    let _ ← block p
    return
  let start := (← current).span.start
  skipModifiers
  classKey p
  if ← atPunct "(" then
    let _ ← functionTail p start none
  else
    if ← eatPunct "=" then
      let _ ← p.assignment
    endStatement

/-- A class. Its members are read, so that the functions in it are found, but they
do not become part of a tree. -/
def classBody : Parse Unit := do
  let _ ← expectKeyword "class"
  if ← atName then
    let _ ← bump
  if ← atKeyword "extends" then
    let _ ← bump
    let _ ← p.chain
  let _ ← expectPunct "\x7b"
  let _ ← manyUntil (eatPunct "\x7d") (classMember p)

/-! ## Operands -/

/-- Expressions separated by commas, which form a sequence if there are several. -/
def sequence (assignment : Parse (Expr Mark)) : Parse (Expr Mark) := do
  let first ← assignment
  if ← atPunct "," then
    let others ← manyUntil (do return !(← eatPunct ",")) assignment
    finishExpr first.outer.start (.sequence · (first :: others))
  else return first

/-- An expression in parentheses. -/
def parenthesized : Parse (Expr Mark) := do
  let start := (← bump).span.start
  let inner ← withNoIn false (sequence p.assignment)
  let close ← expectPunct ")"
  enclose inner ⟨start, close.span.stop⟩

/-- The expression that a single token stands for. -/
def atom? (token : Token) : Option (Mark → Expr Mark) :=
  match token.kind with
  | .identifier => some (.identifier · token.text)
  | .number => some (.literal · (.number (Token.numeralValue token.text) token.text))
  | .string value => some (.literal · (.string value))
  | .template => some (.literal · .template)
  | .regex => some (.literal · .regex)
  | .keyword =>
    if token.text = "null" then some (.literal · .null)
    else if token.text = "true" then some (.literal · (.boolean true))
    else if token.text = "false" then some (.literal · (.boolean false))
    else if token.text = "this" then some .thisRef
    else if token.text = "super" || token.text = "import" then some (.identifier · token.text)
    else none
  | _ => none

/-- An operand that is not built with operators. -/
def primary : Parse (Expr Mark) := do
  let state ← get
  let token := state.current
  let start := token.span.start
  if state.asyncFunctionAhead then
    let _ ← bump
    functionExpression p start
  else
    match atom? token with
    | some build =>
      let _ ← bump
      finishExpr start build
    | none =>
      if token.isKeyword "function" then functionExpression p start
      else if token.isKeyword "class" then
        classBody p
        finishExpr start .hidden
      else if token.isPunct "(" then parenthesized p
      else if token.isPunct "[" then arrayLiteral p
      else if token.isPunct "\x7b" then objectLiteral p
      else unexpected

/-! ## Members and calls -/

/-- The name of a property behind a point. -/
def propertyName : Parse String := do
  let token ← current
  if token.kind = .identifier || token.kind = .keyword then return (← bump).text
  else expected "property name"

/-- One more member of the operand of `new`, which starts at `start`. -/
def constructLink (start : Nat) (callee : Expr Mark) : Parse (Option (Expr Mark)) := do
  if ← eatPunct "." then
    let name ← propertyName
    return some (← finishExpr start (.member · callee (.named name) false))
  else if ← eatPunct "[" then
    let key ← sequence p.assignment
    let _ ← expectPunct "]"
    return some (← finishExpr start (.member · callee (.computed key) false))
  else return none

/-- The operator `new` with its operand and arguments. -/
def construct : Parse (Expr Mark) := do
  let start := (← bump).span.start
  if ← eatPunct "." then
    let _ ← propertyName
    finishExpr start .hidden
  else
    let head ← if ← atKeyword "new" then p.construct else primary p
    let callee ← extend (constructLink p head.outer.start) head
    let arguments ← if ← atPunct "(" then arguments p else pure []
    finishExpr start (.construct · callee arguments)

/-- One more member, call or template behind an operand that starts at `start`. -/
def chainLink (start : Nat) (operand : Expr Mark) : Parse (Option (Expr Mark)) := do
  if ← eatPunct "." then
    let name ← propertyName
    return some (← finishExpr start (.member · operand (.named name) false))
  else if ← eatPunct "?." then
    if ← atPunct "(" then
      let arguments ← arguments p
      return some (← finishExpr start (.call · operand arguments true))
    else if ← eatPunct "[" then
      let key ← sequence p.assignment
      let _ ← expectPunct "]"
      return some (← finishExpr start (.member · operand (.computed key) true))
    else
      let name ← propertyName
      return some (← finishExpr start (.member · operand (.named name) true))
  else if ← atPunct "[" then
    let _ ← bump
    let key ← withNoIn false (sequence p.assignment)
    let _ ← expectPunct "]"
    return some (← finishExpr start (.member · operand (.computed key) false))
  else if ← atPunct "(" then
    let arguments ← arguments p
    return some (← finishExpr start (.call · operand arguments false))
  else if (← current).kind = .template then
    let _ ← bump
    return some (← finishExpr start .hidden)
  else return none

/-- An operand with its members and calls. -/
def chain : Parse (Expr Mark) := do
  let head ← if ← atKeyword "new" then construct p else primary p
  extend (chainLink p head.outer.start) head

/-! ## Operators -/

/-- The operator in front of an operand that comes next. -/
def State.unaryAhead? (state : State) : Option UnaryOp :=
  let token := state.current
  match token.kind with
  | .punctuator => UnaryOp.ofText? token.text
  | .keyword => UnaryOp.ofText? token.text
  | .identifier => if token.text = "await" && state.awaitsOperand then some .await else none
  | _ => none

/-- The mark of an increment or a decrement. -/
def isUpdate (token : Token) : Bool :=
  token.isPunct "++" || token.isPunct "--"

/-- An operand with the operators in front of it, or with an increment or decrement
behind it on the same line. -/
def unary : Parse (Expr Mark) := do
  let state ← get
  let token := state.current
  match state.unaryAhead? with
  | some op =>
    let _ ← bump
    let argument ← p.unary
    finishExpr token.span.start (.unary · op argument)
  | none =>
    if isUpdate token then
      let _ ← bump
      let argument ← p.unary
      finishExpr token.span.start (.update · (token.text = "++") true argument)
    else
      let operand ← chain p
      let next ← current
      if isUpdate next && !next.newlineBefore then
        let _ ← bump
        finishExpr operand.outer.start (.update · (next.text = "++") false operand)
      else return operand

/-- One more operator of at least the given power, with its right operand. -/
def binaryLink (least : Nat) (left : Expr Mark) : Parse (Option (Expr Mark)) := do
  let state ← get
  match Infix.ofToken? state.noIn state.current with
  | some op =>
    if op.power < least then return none
    let _ ← bump
    let right ← p.binary op.rightLeast
    return some (← finishExpr left.outer.start (op.build left right))
  | none => return none

/-- Operands with operators of at least the given power between them. -/
def binary (least : Nat) : Parse (Expr Mark) := do
  let left ← unary p
  extend (binaryLink p least) left

/-- A conditional, or what could be its test. -/
def conditional : Parse (Expr Mark) := do
  let test ← binary p 0
  if ← atPunct "?" then
    let _ ← bump
    let consequent ← withNoIn false p.assignment
    let _ ← expectPunct ":"
    let alternate ← p.assignment
    finishExpr test.outer.start (.conditional · test consequent alternate)
  else return test

/-- The body of an arrow function. -/
def arrowBody : Parse (FunctionBody Mark) := do
  if ← atPunct "\x7b" then return .block (← statementList p)
  else return .expression (← p.assignment)

/-- An arrow function. -/
def arrowFunction : Parse (Expr Mark) := do
  let start := (← current).span.start
  if (← current).isIdentifier "async" && !(← peek 1).isPunct "=>" then
    let _ ← bump
  let params ← if ← atName then pure [← name] else params p
  let _ ← expectPunct "=>"
  let body ← withNoIn false (arrowBody p)
  finishExpr start (.function · none params body true)

/-- Can the token not start an operand of `yield`? -/
def yieldsNothing (token : Token) : Bool :=
  token.closes || token.isPunct "," || token.isPunct ";" || token.kind = .eof ||
    token.newlineBefore

/-- The operator `yield` with its operand, if it has one. -/
def yieldExpression : Parse (Expr Mark) := do
  let start := (← bump).span.start
  let _ ← eatPunct "*"
  if !yieldsNothing (← current) then
    let _ ← p.assignment
  finishExpr start .hidden

/-- The assignment operators. -/
def assignmentOperators : List String :=
  ["=", "+=", "-=", "*=", "/=", "%=", "**=", "<<=", ">>=", ">>>=", "&=", "|=", "^=", "&&=",
   "||=", "??="]

/-- An assignment, or anything that binds more tightly. -/
def assignment : Parse (Expr Mark) := do
  if (← get).arrowAhead then arrowFunction p
  else if ← atKeyword "yield" then yieldExpression p
  else
    let target ← conditional p
    let token ← current
    if token.kind = .punctuator && assignmentOperators.contains token.text then
      let _ ← bump
      let value ← p.assignment
      finishExpr target.outer.start (.assignment · token.text target value)
    else return target

/-- Any expression. -/
def expression : Parse (Expr Mark) :=
  sequence (assignment p)

end TidyScript.Grammar
