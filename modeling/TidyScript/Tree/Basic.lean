import TidyScript.Tree.Operator
import TidyScript.Text.Span

/-!
# Syntax trees

Expressions and statements of a script. Every node carries a mark of an arbitrary
type: the grammar marks nodes with their number and place in the source (`Mark`),
and a tree whose marks are all alike is a tree without places.

Two kinds of construct are not shown in full: a node `hidden` stands for source
whose inside the analyses do not look into, such as a class or a tagged template.
-/

namespace TidyScript

/-- The value of a literal. -/
inductive Literal where
  | null
  | boolean (value : Bool)
  /-- A number with its text as written. -/
  | number (value : Float) (raw : String)
  | string (value : String)
  | regex
  | template

/-- The word that introduces a declaration. -/
inductive DeclarationKind where
  | var
  | let
  | const
deriving DecidableEq, Repr

namespace DeclarationKind

/-- The word as written. -/
def text : DeclarationKind → String
  | var => "var"
  | .let => "let"
  | const => "const"

/-- Is the declared name bound to the enclosing block, and not to the enclosing
function? -/
def isBlockScoped : DeclarationKind → Bool
  | var => false
  | .let => true
  | const => true

end DeclarationKind

mutual

/-- Expressions, each node marked with an `α`. -/
inductive Expr (α : Type) where
  | identifier (mark : α) (name : String)
  | literal (mark : α) (value : Literal)
  /-- The word `this`. -/
  | thisRef (mark : α)
  | unary (mark : α) (op : UnaryOp) (argument : Expr α)
  /-- An increment or decrement, before or behind its operand. -/
  | update (mark : α) (increment before : Bool) (argument : Expr α)
  | binary (mark : α) (op : BinaryOp) (left right : Expr α)
  | logical (mark : α) (op : LogicalOp) (left right : Expr α)
  | conditional (mark : α) (test consequent alternate : Expr α)
  | assignment (mark : α) (op : String) (target value : Expr α)
  | member (mark : α) (object : Expr α) (property : Key α) (optional : Bool)
  | call (mark : α) (callee : Expr α) (arguments : List (Expr α)) (optional : Bool)
  /-- The operator `new` with its operands. -/
  | construct (mark : α) (callee : Expr α) (arguments : List (Expr α))
  | array (mark : α) (elements : List (Element α))
  | object (mark : α) (members : List (ObjectMember α))
  | function (mark : α) (name : Option String) (params : List (Expr α)) (body : FunctionBody α)
      (arrow : Bool)
  | sequence (mark : α) (items : List (Expr α))
  | spread (mark : α) (value : Expr α)
  | hidden (mark : α)

/-- The name of a property, written out or computed. -/
inductive Key (α : Type) where
  | named (name : String)
  | computed (key : Expr α)

/-- A place of an array literal, which may be left out. -/
inductive Element (α : Type) where
  | hole
  | item (value : Expr α)

/-- A part of an object literal. -/
inductive ObjectMember (α : Type) where
  | property (key : Key α) (value : Expr α)
  | spread (value : Expr α)

/-- The body of a function: statements in braces, or one expression. -/
inductive FunctionBody (α : Type) where
  | block (body : List (Stmt α))
  | expression (value : Expr α)

/-- Statements, each node marked with an `α`. -/
inductive Stmt (α : Type) where
  | expression (mark : α) (value : Expr α)
  | declaration (mark : α) (kind : DeclarationKind) (declarators : List (Declarator α))
  | function (mark : α) (name : String) (params : List (Expr α)) (body : List (Stmt α))
  | returning (mark : α) (value : Option (Expr α))
  /-- An `if`, with or without an `else`. -/
  | branch (mark : α) (test : Expr α) (consequent : Stmt α) (alternate : Option (Stmt α))
  | block (mark : α) (body : List (Stmt α))
  | forLoop (mark : α) (init : Option (Stmt α)) (test update : Option (Expr α)) (body : Stmt α)
  | forIn (mark : α) (head : ForHead α) (subject : Expr α) (body : Stmt α)
  | forOf (mark : α) (head : ForHead α) (subject : Expr α) (body : Stmt α)
  | whileLoop (mark : α) (test : Expr α) (body : Stmt α)
  | doWhile (mark : α) (body : Stmt α) (test : Expr α)
  /-- A `try` with its handler, its `finally`, or both. -/
  | attempt (mark : α) (block : Stmt α) (handler : Option (Handler α))
      (finalizer : Option (Stmt α))
  | throwing (mark : α) (value : Expr α)
  | breaking (mark : α) (label : Option String)
  | continuing (mark : α) (label : Option String)
  | switch (mark : α) (subject : Expr α) (cases : List (SwitchCase α))
  | labeled (mark : α) (label : String) (body : Stmt α)
  | empty (mark : α)
  | hidden (mark : α)

/-- A declared pattern with its initial value. -/
inductive Declarator (α : Type) where
  | mk (pattern : Expr α) (init : Option (Expr α))

/-- What a loop over an object or its values assigns to. -/
inductive ForHead (α : Type) where
  | declaration (value : Stmt α)
  | pattern (target : Expr α)

/-- The handler of a `try`: its parameter and its block. -/
inductive Handler (α : Type) where
  | mk (param : Option (Expr α)) (body : Stmt α)

/-- A case of a `switch`; the default case has no test. -/
inductive SwitchCase (α : Type) where
  | mk (test : Option (Expr α)) (consequent : List (Stmt α))

end

/-- A node of either sort. -/
inductive Node (α : Type) where
  | expr (value : Expr α)
  | stmt (value : Stmt α)

namespace Declarator

variable {α : Type}

/-- What is declared. -/
def pattern : Declarator α → Expr α
  | mk pattern _ => pattern

/-- The initial value. -/
def init : Declarator α → Option (Expr α)
  | mk _ init => init

end Declarator

namespace Handler

variable {α : Type}

/-- The parameter. -/
def param : Handler α → Option (Expr α)
  | mk param _ => param

/-- The block. -/
def body : Handler α → Stmt α
  | mk _ body => body

end Handler

namespace SwitchCase

variable {α : Type}

/-- The test, absent in the default case. -/
def test : SwitchCase α → Option (Expr α)
  | mk test _ => test

/-- The statements of the case. -/
def consequent : SwitchCase α → List (Stmt α)
  | mk _ consequent => consequent

end SwitchCase

namespace Expr

variable {α : Type}

/-- The mark of a node. -/
def mark : Expr α → α
  | identifier mark _ => mark
  | literal mark _ => mark
  | thisRef mark => mark
  | unary mark _ _ => mark
  | update mark _ _ _ => mark
  | binary mark _ _ _ => mark
  | logical mark _ _ _ => mark
  | conditional mark _ _ _ => mark
  | assignment mark _ _ _ => mark
  | member mark _ _ _ => mark
  | call mark _ _ _ => mark
  | construct mark _ _ => mark
  | array mark _ => mark
  | object mark _ => mark
  | function mark _ _ _ _ => mark
  | sequence mark _ => mark
  | spread mark _ => mark
  | hidden mark => mark

/-- The same node with another mark. -/
def withMark (mark : α) : Expr α → Expr α
  | identifier _ name => identifier mark name
  | literal _ value => literal mark value
  | thisRef _ => thisRef mark
  | unary _ op argument => unary mark op argument
  | update _ increment before argument => update mark increment before argument
  | binary _ op left right => binary mark op left right
  | logical _ op left right => logical mark op left right
  | conditional _ test consequent alternate => conditional mark test consequent alternate
  | assignment _ op target value => assignment mark op target value
  | member _ base property optional => member mark base property optional
  | call _ callee arguments optional => call mark callee arguments optional
  | construct _ callee arguments => construct mark callee arguments
  | array _ elements => array mark elements
  | object _ members => object mark members
  | function _ name params body arrow => function mark name params body arrow
  | sequence _ items => sequence mark items
  | spread _ value => spread mark value
  | hidden _ => hidden mark

/-- The nodes of the computed keys among the given ones. -/
def keyNodes : Key α → List (Node α)
  | .named _ => []
  | .computed key => [.expr key]

/-- The nodes of an element of an array literal. -/
def elementNodes : Element α → List (Node α)
  | .hole => []
  | .item value => [.expr value]

/-- The nodes of a part of an object literal. -/
def memberNodes : ObjectMember α → List (Node α)
  | .property key value => keyNodes key ++ [.expr value]
  | .spread value => [.expr value]

/-- The nodes of the body of a function. -/
def bodyNodes : FunctionBody α → List (Node α)
  | .block body => body.map .stmt
  | .expression value => [.expr value]

/-- The nodes directly below an expression, in the order of the source. -/
def children : Expr α → List (Node α)
  | identifier _ _ => []
  | literal _ _ => []
  | thisRef _ => []
  | unary _ _ argument => [.expr argument]
  | update _ _ _ argument => [.expr argument]
  | binary _ _ left right => [.expr left, .expr right]
  | logical _ _ left right => [.expr left, .expr right]
  | conditional _ test consequent alternate => [.expr test, .expr consequent, .expr alternate]
  | assignment _ _ target value => [.expr target, .expr value]
  | member _ base property _ => .expr base :: keyNodes property
  | call _ callee arguments _ => .expr callee :: arguments.map .expr
  | construct _ callee arguments => .expr callee :: arguments.map .expr
  | array _ elements => elements.flatMap elementNodes
  | object _ members => members.flatMap memberNodes
  | function _ _ params body _ => params.map .expr ++ bodyNodes body
  | sequence _ items => items.map .expr
  | spread _ value => [.expr value]
  | hidden _ => []

end Expr

namespace Stmt

variable {α : Type}

/-- The mark of a node. -/
def mark : Stmt α → α
  | expression mark _ => mark
  | declaration mark _ _ => mark
  | function mark _ _ _ => mark
  | returning mark _ => mark
  | branch mark _ _ _ => mark
  | block mark _ => mark
  | forLoop mark _ _ _ _ => mark
  | forIn mark _ _ _ => mark
  | forOf mark _ _ _ => mark
  | whileLoop mark _ _ => mark
  | doWhile mark _ _ => mark
  | attempt mark _ _ _ => mark
  | throwing mark _ => mark
  | breaking mark _ => mark
  | continuing mark _ => mark
  | switch mark _ _ => mark
  | labeled mark _ _ => mark
  | empty mark => mark
  | hidden mark => mark

/-- The nodes of an optional expression. -/
def exprNodes (value : Option (Expr α)) : List (Node α) :=
  value.toList.map .expr

/-- The nodes of an optional statement. -/
def stmtNodes (value : Option (Stmt α)) : List (Node α) :=
  value.toList.map .stmt

/-- The node of a loop head. -/
def headNode : ForHead α → Node α
  | .declaration decl => .stmt decl
  | .pattern target => .expr target

/-- The nodes directly below a statement, in the order of the source. -/
def children : Stmt α → List (Node α)
  | expression _ value => [.expr value]
  | declaration _ _ declarators =>
    declarators.flatMap fun declarator => .expr declarator.pattern :: exprNodes declarator.init
  | function _ _ params body => params.map .expr ++ body.map .stmt
  | returning _ value => exprNodes value
  | branch _ test consequent alternate => .expr test :: .stmt consequent :: stmtNodes alternate
  | block _ body => body.map .stmt
  | forLoop _ init test update body =>
    stmtNodes init ++ exprNodes test ++ exprNodes update ++ [.stmt body]
  | forIn _ head subject body => [headNode head, .expr subject, .stmt body]
  | forOf _ head subject body => [headNode head, .expr subject, .stmt body]
  | whileLoop _ test body => [.expr test, .stmt body]
  | doWhile _ body test => [.stmt body, .expr test]
  | attempt _ body handler finalizer =>
    .stmt body ::
      (handler.toList.flatMap fun handler => exprNodes handler.param ++ [.stmt handler.body]) ++
        stmtNodes finalizer
  | throwing _ value => [.expr value]
  | breaking _ _ => []
  | continuing _ _ => []
  | switch _ subject cases =>
    .expr subject ::
      cases.flatMap fun arm => exprNodes arm.test ++ arm.consequent.map .stmt
  | labeled _ _ body => [.stmt body]
  | empty _ => []
  | hidden _ => []

/-- The statements of a block, or the statement itself. -/
def statements : Stmt α → List (Stmt α)
  | block _ body => body
  | other => [other]

end Stmt

namespace Node

variable {α : Type}

/-- The mark of a node. -/
def mark : Node α → α
  | expr value => value.mark
  | stmt value => value.mark

/-- The nodes directly below a node, in the order of the source. -/
def children : Node α → List (Node α)
  | expr value => value.children
  | stmt value => value.children

end Node

end TidyScript
