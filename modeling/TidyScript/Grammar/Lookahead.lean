import TidyScript.Grammar.State

/-!
# Decisions by looking ahead

A few constructs are told apart only by tokens further on: an arrow function by the
arrow behind its parameters, an `await` by what it could await, a method by the name
behind its modifiers, and the end of an import by the tokens that follow. These
decisions look at tokens and take none.
-/

namespace TidyScript

namespace Token

/-- Does the token open a bracket of any kind? -/
def opens (token : Token) : Bool :=
  token.isPunct "(" || token.isPunct "[" || token.isPunct "\x7b"

/-- Does the token close a bracket of any kind? -/
def closes (token : Token) : Bool :=
  token.isPunct ")" || token.isPunct "]" || token.isPunct "\x7d"

end Token

namespace Grammar

/-- With `depth` brackets open, does the bracket that closes the last of them have
an arrow behind it, on the same line? -/
def closesIntoArrow (stop : Token) (depth : Nat) : List Token → Bool
  | [] => false
  | token :: rest =>
    if token.opens then closesIntoArrow stop (depth + 1) rest
    else if token.closes then
      if depth ≤ 1 then
        let next := rest.headD stop
        next.isPunct "=>" && !next.newlineBefore
      else closesIntoArrow stop (depth - 1) rest
    else closesIntoArrow stop depth rest

namespace State

/-- Is an arrow function coming? -/
def arrowAhead (state : State) : Bool :=
  let next := state.peek 1
  let async := state.current.isIdentifier "async" && !next.newlineBefore &&
    (next.kind = .identifier || next.isPunct "(")
  let skipped := if async then 1 else 0
  let head := state.peek skipped
  if head.kind = .identifier then (state.peek (skipped + 1)).isPunct "=>"
  else if head.isPunct "(" then closesIntoArrow state.stop 0 (state.rest.drop skipped)
  else false

/-- Is a function with the word `async` in front coming? -/
def asyncFunctionAhead (state : State) : Bool :=
  state.current.isIdentifier "async" && (state.peek 1).isKeyword "function" &&
    !(state.peek 1).newlineBefore

/-- Does `await`, which comes next, have an operand? -/
def awaitsOperand (state : State) : Bool :=
  let next := state.peek 1
  !next.newlineBefore &&
    match next.kind with
    | .identifier => true
    | .keyword => true
    | .number => true
    | .string _ => true
    | .template => true
    | .regex => true
    | .punctuator => ["[", "!", "~", "\x7b"].contains next.text
    | .eof => false

/-- The words that can modify a method. -/
def modifiers : List String :=
  ["get", "set", "async", "static"]

/-- The punctuators behind the name of a property or a class member. -/
def nameEnders : List String :=
  ["(", ",", ":", "\x7d", "=", ";"]

/-- Is the next token a modifier in front of a method name? The words for modifiers
are names themselves if what follows shows that they are not modifiers. -/
def modifierAhead (state : State) : Bool :=
  let token := state.current
  let next := state.peek 1
  let word := token.kind = .identifier && modifiers.contains token.text
  let endsName := next.kind = .punctuator && nameEnders.contains next.text
  (word && !endsName && next.kind ≠ .eof) || token.isPunct "*"

/-- Does a function or class declaration, which comes next, have a name? -/
def declarationNamed (state : State) : Bool :=
  (state.peek 1).kind = .identifier ||
    ((state.peek 1).isPunct "*" && (state.peek 2).kind = .identifier)

end State

/-- The number of tokens of an import or export clause: up to a semicolon, which
belongs to it, or to a line break or closing brace, at bracket depth zero. -/
def clauseLength (depth : Nat) (started : Bool) : List Token → Nat
  | [] => 0
  | token :: rest =>
    if depth = 0 && started && token.isPunct ";" then 1
    else if depth = 0 && started && (token.newlineBefore || token.isPunct "\x7d") then 0
    else
      let depth :=
        if token.opens then depth + 1 else if token.closes then depth - 1 else depth
      clauseLength depth true rest + 1

end Grammar

end TidyScript
