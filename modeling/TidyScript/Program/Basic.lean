import TidyScript.Grammar.Basic
import TidyScript.Tree.Judgement

/-!
# Programs

A program is a source together with what reading it has found: the tokens and
comments, the table of all nodes in the order of their completion, and the
statements at the top. Nodes of hidden constructs are in the table too, but nothing
leads to them from the top.

Trees know their children. Who the parent of a node is, the program looks up in a
table that is filled once, from the children of all nodes.
-/

namespace TidyScript

/-- For each expression and each statement, the node directly above it. -/
structure Parents where
  ofExpr : Array (Option (Node Mark))
  ofStmt : Array (Option (Node Mark))

namespace Parents

/-- Nobody has a parent. -/
def blank (exprs stmts : Nat) : Parents :=
  ⟨Array.replicate exprs none, Array.replicate stmts none⟩

/-- Enters `parent` as the parent of a node. -/
def enter (parent : Node Mark) (parents : Parents) (child : Node Mark) : Parents :=
  match child with
  | .expr e => { parents with ofExpr := parents.ofExpr.setIfInBounds e.index (some parent) }
  | .stmt s => { parents with ofStmt := parents.ofStmt.setIfInBounds s.index (some parent) }

/-- Enters a node as the parent of all its children. -/
def enterChildren (parents : Parents) (parent : Node Mark) : Parents :=
  parent.children.foldl (enter parent) parents

/-- The parents among the given nodes. -/
def ofNodes (exprs : Array (Expr Mark)) (stmts : Array (Stmt Mark)) : Parents :=
  let ofExprs := exprs.foldl (fun parents e => parents.enterChildren (.expr e))
    (blank exprs.size stmts.size)
  stmts.foldl (fun parents s => parents.enterChildren (.stmt s)) ofExprs

end Parents

/-- A source with all that reading it has found. -/
structure Program where
  source : String
  /-- All tokens but the end mark. -/
  tokens : Array Token
  comments : List Comment
  /-- All expressions, each at the place of its number. -/
  exprs : Array (Expr Mark)
  /-- All statements, each at the place of its number. -/
  stmts : Array (Stmt Mark)
  /-- The statements at the top. -/
  body : List (Stmt Mark)
  parents : Parents

namespace Program

/-- The program that a finished parse has found. -/
def ofState (source : String) (row : TokenRow) (state : Grammar.State)
    (body : List (Stmt Mark)) : Program where
  source := source
  tokens := row.tokens.toArray
  comments := row.comments
  exprs := state.exprs
  stmts := state.stmts
  body := body
  parents := Parents.ofNodes state.exprs state.stmts

/-- Reads the tokens of a source. -/
def readTokens (source : String) : Except ParseError TokenRow :=
  (TokenRow.ofString source).mapError .lex

/-- Reads the rest of a row of tokens as statements. -/
def ofTokens (source : String) (row : TokenRow) (state : Grammar.State) :
    Except ParseError Program :=
  match Grammar.readProgram.run state with
  | .ok body state => .ok (ofState source row state body)
  | .error error _ => .error error

/-- Reads a source. -/
def parse (source : String) : Except ParseError Program := do
  let row ← readTokens source
  ofTokens source row (Grammar.State.ofRow row)

/-- Reads a source that is a single expression. -/
def parseExpression (source : String) : Except ParseError (Program × Expr Mark) := do
  let row ← readTokens source
  match Grammar.readSingleExpression.run (Grammar.State.ofRow row) with
  | .ok (value, statement) state => .ok (ofState source row state [statement], value)
  | .error error _ => .error error

/-- The node directly above a node. -/
def parent? (program : Program) : NodeId → Option (Node Mark)
  | .expr index => program.parents.ofExpr[index]?.join
  | .stmt index => program.parents.ofStmt[index]?.join

end Program

end TidyScript
