import TidyScript.Tree.Basic

/-!
# Children are smaller

A node is larger than each of its children. The parts of a node are of many sorts, lists and options
of them included, and each part is at least as large as the nodes that it holds.
-/

namespace TidyScript.Node

variable {α β : Type} [SizeOf α] [SizeOf β]

/-- None of the nodes is larger than the part that holds them. -/
def Fit (nodes : List (Node α)) (size : Nat) : Prop :=
  ∀ node ∈ nodes, sizeOf node ≤ size

namespace Fit

variable {nodes others : List (Node α)} {size size' : Nat}

theorem nil : Fit ([] : List (Node α)) size := nofun

theorem cons {node : Node α} (first : sizeOf node ≤ size) (fit : Fit nodes size) :
    Fit (node :: nodes) size :=
  List.forall_mem_cons.2 ⟨first, fit⟩

theorem append (first : Fit nodes size) (second : Fit others size) : Fit (nodes ++ others) size :=
  List.forall_mem_append.2 ⟨first, second⟩

theorem mono (fit : Fit nodes size) (le : size ≤ size') : Fit nodes size' :=
  fun node mem => Nat.le_trans (fit node mem) le

/-- The nodes of the members of a list. -/
theorem flatMap {parts : List β} {f : β → List (Node α)}
    (each : ∀ part, Fit (f part) (sizeOf part)) : Fit (parts.flatMap f) (sizeOf parts) := by
  intro node mem
  obtain ⟨part, memPart, memNode⟩ := List.mem_flatMap.1 mem
  exact Nat.le_of_lt (Nat.lt_of_le_of_lt (each part node memNode) (List.sizeOf_lt_of_mem memPart))

theorem expr (e : Expr α) : Fit [Node.expr e] (1 + sizeOf e) :=
  cons (by simp) nil

theorem stmt (s : Stmt α) : Fit [Node.stmt s] (1 + sizeOf s) :=
  cons (by simp) nil

theorem exprs (items : List (Expr α)) : Fit (items.map .expr) (sizeOf items) := by
  intro node mem
  obtain ⟨e, memE, rfl⟩ := List.mem_map.1 mem
  have smaller := List.sizeOf_lt_of_mem memE
  rw [Node.expr.sizeOf_spec]
  omega

theorem stmts (items : List (Stmt α)) : Fit (items.map .stmt) (sizeOf items) := by
  intro node mem
  obtain ⟨s, memS, rfl⟩ := List.mem_map.1 mem
  have smaller := List.sizeOf_lt_of_mem memS
  rw [Node.stmt.sizeOf_spec]
  omega

theorem exprNodes (value : Option (Expr α)) : Fit (Stmt.exprNodes value) (sizeOf value) := by
  cases value with
  | none => exact nil
  | some e => exact expr e

theorem stmtNodes (value : Option (Stmt α)) : Fit (Stmt.stmtNodes value) (sizeOf value) := by
  cases value with
  | none => exact nil
  | some s => exact stmt s

theorem keyNodes (key : Key α) : Fit (Expr.keyNodes key) (sizeOf key) := by
  cases key with
  | named => exact nil
  | computed key => exact (expr key).mono (by simp)

theorem elementNodes (element : Element α) : Fit (Expr.elementNodes element) (sizeOf element) := by
  cases element with
  | hole => exact nil
  | item value => exact (expr value).mono (by simp)

theorem memberNodes (member : ObjectMember α) :
    Fit (Expr.memberNodes member) (sizeOf member) := by
  cases member with
  | property key value =>
    exact ((keyNodes key).mono (by simp +arith)).append ((expr value).mono (by simp +arith))
  | spread value => exact (expr value).mono (by simp)

theorem bodyNodes (body : FunctionBody α) : Fit (Expr.bodyNodes body) (sizeOf body) := by
  cases body with
  | block body => exact (stmts body).mono (by simp)
  | expression value => exact (expr value).mono (by simp)

theorem headNode (head : ForHead α) : sizeOf (Stmt.headNode head) ≤ sizeOf head := by
  cases head <;> simp [Stmt.headNode]

theorem declarator (declarator : Declarator α) :
    Fit (.expr declarator.pattern :: Stmt.exprNodes declarator.init) (sizeOf declarator) := by
  cases declarator with
  | mk pattern init =>
    exact cons (by simp +arith [Declarator.pattern]) ((exprNodes init).mono (by simp +arith))

theorem handler (handler : Option (Handler α)) :
    Fit (handler.toList.flatMap fun handler => Stmt.exprNodes handler.param ++ [.stmt handler.body])
      (sizeOf handler) := by
  cases handler with
  | none => exact nil
  | some handler =>
    cases handler with
    | mk param body =>
      rw [Option.toList_some, List.flatMap_singleton]
      exact ((exprNodes param).mono (by simp +arith)).append ((stmt body).mono (by simp +arith))

theorem arm (arm : SwitchCase α) :
    Fit (Stmt.exprNodes arm.test ++ arm.consequent.map .stmt) (sizeOf arm) := by
  cases arm with
  | mk test consequent =>
    exact ((exprNodes test).mono (by simp +arith)).append
      ((stmts consequent).mono (by simp +arith))

end Fit

/-- No child of an expression is larger than the expression. -/
theorem fit_exprChildren (e : Expr α) : Fit e.children (sizeOf e) := by
  cases e with
  | identifier | literal | thisRef | hidden => exact .nil
  | unary _ _ argument | update _ _ _ argument | spread _ argument =>
    exact (Fit.expr argument).mono (by simp +arith)
  | binary | logical | assignment => exact .cons (by simp +arith) (.cons (by simp +arith) .nil)
  | conditional =>
    exact .cons (by simp +arith) (.cons (by simp +arith) (.cons (by simp +arith) .nil))
  | member _ _ property =>
    exact .cons (by simp +arith) ((Fit.keyNodes property).mono (by simp +arith))
  | call _ _ arguments | construct _ _ arguments =>
    exact .cons (by simp +arith) ((Fit.exprs arguments).mono (by simp +arith))
  | array => exact (Fit.flatMap Fit.elementNodes).mono (by simp +arith)
  | object => exact (Fit.flatMap Fit.memberNodes).mono (by simp +arith)
  | function _ _ params body =>
    exact ((Fit.exprs params).mono (by simp +arith)).append
      ((Fit.bodyNodes body).mono (by simp +arith))
  | sequence _ items => exact (Fit.exprs items).mono (by simp +arith)

/-- No child of a statement is larger than the statement. -/
theorem fit_stmtChildren (s : Stmt α) : Fit s.children (sizeOf s) := by
  cases s with
  | breaking | continuing | empty | hidden => exact .nil
  | expression _ value | throwing _ value => exact (Fit.expr value).mono (by simp +arith)
  | labeled _ _ body => exact (Fit.stmt body).mono (by simp +arith)
  | declaration => exact (Fit.flatMap Fit.declarator).mono (by simp +arith)
  | function _ _ params body =>
    exact ((Fit.exprs params).mono (by simp +arith)).append ((Fit.stmts body).mono (by simp +arith))
  | returning _ value => exact (Fit.exprNodes value).mono (by simp +arith)
  | branch _ _ _ alternate =>
    exact .cons (by simp +arith) (.cons (by simp +arith)
      ((Fit.stmtNodes alternate).mono (by simp +arith)))
  | block _ body => exact (Fit.stmts body).mono (by simp +arith)
  | forLoop _ init test update body =>
    exact ((((Fit.stmtNodes init).mono (by simp +arith)).append
      ((Fit.exprNodes test).mono (by simp +arith))).append
        ((Fit.exprNodes update).mono (by simp +arith))).append
          ((Fit.stmt body).mono (by simp +arith))
  | forIn _ head _ body | forOf _ head _ body =>
    have first := Fit.headNode head
    exact .cons (Nat.le_trans first (by simp +arith))
      (.cons (by simp +arith) (.cons (by simp +arith) .nil))
  | whileLoop | doWhile => exact .cons (by simp +arith) (.cons (by simp +arith) .nil)
  | attempt _ body handler finalizer =>
    exact .append (.cons (by simp +arith) ((Fit.handler handler).mono (by simp +arith)))
      ((Fit.stmtNodes finalizer).mono (by simp +arith))
  | switch => exact .cons (by simp +arith) ((Fit.flatMap Fit.arm).mono (by simp +arith))

/-- **A child is smaller than its parent.** -/
theorem sizeOf_lt {node child : Node α} (mem : child ∈ node.children) :
    sizeOf child < sizeOf node := by
  cases node with
  | expr e =>
    have le := fit_exprChildren e child mem
    rw [expr.sizeOf_spec]
    omega
  | stmt s =>
    have le := fit_stmtChildren s child mem
    rw [stmt.sizeOf_spec]
    omega

end TidyScript.Node
