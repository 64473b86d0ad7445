import TidyScript.Token.Lexer
import TidyScript.Tree.Mark

/-!
# Reading from a row of tokens

The state of a parse is the row of tokens still to be read together with all nodes
completed so far. A parse that fails keeps its state: the tokens it has taken stay
taken and the nodes it has completed stay in the table, and reading may go on from
there.

The end mark of the row is kept apart from it. Looking past the last token shows
the end mark, and taking a token at the end takes nothing, so no operation here can
run out of the row.
-/

namespace TidyScript

/-- What can be wrong with a source. -/
inductive ParseError where
  /-- The characters do not form tokens. -/
  | lex (error : LexError)
  /-- One particular thing was due at the offset, and another was found. -/
  | expected (what found : String) (offset : Nat)
  /-- What was found can start nothing that is due at the offset. -/
  | unexpected (found : String) (offset : Nat)
deriving DecidableEq, Repr

/-- The wording of a parse error. -/
def ParseError.message : ParseError → String
  | .lex error => error.message
  | .expected what found offset =>
    "expected " ++ what ++ ", found " ++ found ++ " at offset " ++ toString offset
  | .unexpected found offset =>
    "unexpected " ++ found ++ " at offset " ++ toString offset

/-- A token in the wording of an error. -/
def Token.describe (token : Token) : String :=
  if token.kind = .eof then "end of input" else "'" ++ token.text ++ "'"

namespace Grammar

/-- The state of a parse. -/
structure State where
  /-- The tokens still to be read, without the end mark. -/
  rest : List Token
  /-- The end mark. -/
  stop : Token
  /-- The offset at which the token read last ends. -/
  lastEnd : Nat
  /-- Is the word `in` not an operator here, because it ends the head of a loop? -/
  noIn : Bool
  /-- All expressions completed so far, in the order of completion. -/
  exprs : Array (Expr Mark)
  /-- All statements completed so far, in the order of completion. -/
  stmts : Array (Stmt Mark)

namespace State

/-- The state before a row of tokens. -/
def ofRow (row : TokenRow) : State :=
  ⟨row.tokens, row.stop, 0, false, #[], #[]⟩

/-- The token `count` places ahead. -/
def peek (state : State) (count : Nat) : Token :=
  state.rest.getD count state.stop

/-- The token to be read next. -/
def current (state : State) : Token :=
  state.peek 0

end State

/-- A parse: a computation on states that may fail, and keeps the state if it
does. -/
abbrev Parse := EStateM ParseError State

variable {α : Type}

/-! ## Looking and taking -/

/-- The token to be read next. -/
def current : Parse Token := do
  return (← get).current

/-- The token `count` places ahead. -/
def peek (count : Nat) : Parse Token := do
  return (← get).peek count

/-- Takes the next token; at the end, the end mark is seen and stays. -/
def bump : Parse Token := do
  let state ← get
  match state.rest with
  | [] => return state.stop
  | token :: rest =>
    set { state with rest := rest, lastEnd := token.span.stop }
    return token

/-- Takes a number of tokens. -/
def bumpMany : Nat → Parse Unit
  | 0 => return
  | count + 1 => do
    let _ ← bump
    bumpMany count

/-- Is the next token the given punctuator? -/
def atPunct (text : String) : Parse Bool := do
  return (← current).isPunct text

/-- Is the next token the given keyword? -/
def atKeyword (text : String) : Parse Bool := do
  return (← current).isKeyword text

/-- Is the next token a name? -/
def atName : Parse Bool := do
  return (← current).kind = .identifier

/-- Have all tokens been read? -/
def atEnd : Parse Bool := do
  return (← current).kind = .eof

/-- Takes the given punctuator if it comes next, and says whether it did. -/
def eatPunct (text : String) : Parse Bool := do
  if ← atPunct text then
    let _ ← bump
    return true
  else
    return false

/-! ## Failing -/

/-- Fails because something particular is due here. -/
def expected (what : String) : Parse α := do
  let token ← current
  throw (.expected what token.describe token.span.start)

/-- Fails because the next token can start nothing that is due here. -/
def unexpected : Parse α := do
  let token ← current
  throw (.unexpected token.describe token.span.start)

/-- Takes the given punctuator, which has to come next. -/
def expectPunct (text : String) : Parse Token := do
  if ← atPunct text then bump else expected ("'" ++ text ++ "'")

/-- Takes the given keyword, which has to come next. -/
def expectKeyword (text : String) : Parse Token := do
  if ← atKeyword text then bump else expected ("'" ++ text ++ "'")

/-- Requires that all tokens have been read. -/
def expectEnd : Parse Unit := do
  if ← atEnd then return else expected "end of input"

/-- Ends a statement: a semicolon, a closing brace, the end of the source or a line
break does. Only the semicolon is taken. -/
def endStatement : Parse Unit := do
  if ← eatPunct ";" then return
  let token ← current
  if token.isPunct "\x7d" || token.kind = .eof || token.newlineBefore then return
  expected "';'"

/-! ## Completing nodes -/

/-- Completes an expression with the given place. -/
def pushExpr (span : Span) (build : Mark → Expr Mark) : Parse (Expr Mark) := do
  let state ← get
  let node := build ⟨state.exprs.size, span, span⟩
  set { state with exprs := state.exprs.push node }
  return node

/-- Completes a statement with the given place. -/
def pushStmt (span : Span) (build : Mark → Stmt Mark) : Parse (Stmt Mark) := do
  let state ← get
  let node := build ⟨state.stmts.size, span, span⟩
  set { state with stmts := state.stmts.push node }
  return node

/-- Completes an expression that runs from `start` to the token read last. -/
def finishExpr (start : Nat) (build : Mark → Expr Mark) : Parse (Expr Mark) := do
  pushExpr ⟨start, (← get).lastEnd⟩ build

/-- Completes a statement that runs from `start` to the token read last. -/
def finishStmt (start : Nat) (build : Mark → Stmt Mark) : Parse (Stmt Mark) := do
  pushStmt ⟨start, (← get).lastEnd⟩ build

/-- Records the parentheses around an expression. -/
def enclose (node : Expr Mark) (outer : Span) : Parse (Expr Mark) := do
  let node := node.withMark { node.mark with outer := outer }
  modify fun state => { state with exprs := state.exprs.setIfInBounds node.index node }
  return node

/-! ## Modes and loops -/

/-- Runs a parse with `noIn` set, and puts the mode back when it succeeds. -/
def withNoIn (noIn : Bool) (parse : Parse α) : Parse α := do
  let saved := (← get).noIn
  modify fun state => { state with noIn := noIn }
  let result ← parse
  modify fun state => { state with noIn := saved }
  return result

/-- Repeats `item` until `stop` answers yes, at most `bound` times. -/
def manyUpTo (stop : Parse Bool) (item : Parse α) : (bound : Nat) → Parse (List α)
  | 0 => unexpected
  | bound + 1 => do
    if ← stop then return []
    let first ← item
    let others ← manyUpTo stop item bound
    return first :: others

/-- Repeats `item` until `stop` answers yes. An item takes at least one token, so
the tokens that are left bound the number of items. -/
def manyUntil (stop : Parse Bool) (item : Parse α) : Parse (List α) := do
  manyUpTo stop item ((← get).rest.length + 1)

/-- Extends `value` by `step` until there is nothing to extend it by, at most
`bound` times. -/
def extendUpTo (step : α → Parse (Option α)) : (bound : Nat) → α → Parse α
  | 0, _ => unexpected
  | bound + 1, value => do
    match ← step value with
    | none => return value
    | some longer => extendUpTo step bound longer

/-- Extends `value` by `step` until there is nothing to extend it by. A step that
extends takes at least one token, so the tokens that are left bound the number of
steps. -/
def extend (step : α → Parse (Option α)) (value : α) : Parse α := do
  extendUpTo step ((← get).rest.length + 1) value

/-- The items of a list up to its closing punctuator, which is taken. Between two
items stands a comma, and one may stand behind the last. -/
def commaList (close : String) (item : Parse α) : Parse (List α) := do
  let items ← manyUntil (atPunct close) do
    let value ← item
    if !(← atPunct close) then
      let _ ← expectPunct ","
    return value
  let _ ← bump
  return items

/-- One item, and further ones as long as commas follow. -/
def commaSeparated (item : Parse α) : Parse (List α) := do
  let first ← item
  let others ← manyUntil (do return !(← eatPunct ",")) item
  return first :: others

/-! ## Productions that call each other -/

/-- The productions that others call after taking a token. Every other production
is an ordinary function of these. -/
structure Productions where
  statement : Parse (Stmt Mark)
  assignment : Parse (Expr Mark)
  binary : (least : Nat) → Parse (Expr Mark)
  unary : Parse (Expr Mark)
  chain : Parse (Expr Mark)
  construct : Parse (Expr Mark)
  primary : Parse (Expr Mark)

/-- The productions that read nothing. -/
def Productions.none : Productions where
  statement := unexpected
  assignment := unexpected
  binary _ := unexpected
  unary := unexpected
  chain := unexpected
  construct := unexpected
  primary := unexpected

end Grammar

end TidyScript
