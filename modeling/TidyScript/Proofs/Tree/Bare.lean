import TidyScript.Tree.Basic

/-!
# Trees without places

A tree without its marks shows what the source says and not where. Two pieces of source have the
same structure when their trees are the same without marks: the same kinds of statements and
expressions, with the same operators, names, strings and numbers.
-/

namespace TidyScript

variable {α : Type}

mutual

/-- The expression without marks. -/
def Expr.bare : Expr α → Expr Unit
  | .identifier _ name => .identifier () name
  | .literal _ value => .literal () value
  | .thisRef _ => .thisRef ()
  | .unary _ op argument => .unary () op argument.bare
  | .update _ increment before argument => .update () increment before argument.bare
  | .binary _ op left right => .binary () op left.bare right.bare
  | .logical _ op left right => .logical () op left.bare right.bare
  | .conditional _ test consequent alternate =>
    .conditional () test.bare consequent.bare alternate.bare
  | .assignment _ op target value => .assignment () op target.bare value.bare
  | .member _ base property optional => .member () base.bare property.bare optional
  | .call _ callee arguments optional => .call () callee.bare (Expr.bareAll arguments) optional
  | .construct _ callee arguments => .construct () callee.bare (Expr.bareAll arguments)
  | .array _ elements => .array () (Element.bareAll elements)
  | .object _ members => .object () (ObjectMember.bareAll members)
  | .function _ name params body arrow => .function () name (Expr.bareAll params) body.bare arrow
  | .sequence _ items => .sequence () (Expr.bareAll items)
  | .spread _ value => .spread () value.bare
  | .hidden _ => .hidden ()

/-- The expressions without marks. -/
def Expr.bareAll : List (Expr α) → List (Expr Unit)
  | [] => []
  | e :: es => e.bare :: Expr.bareAll es

/-- The expression, if there is one, without marks. -/
def Expr.bareSome : Option (Expr α) → Option (Expr Unit)
  | none => none
  | some e => some e.bare

/-- The name of a property without marks. -/
def Key.bare : Key α → Key Unit
  | .named name => .named name
  | .computed key => .computed key.bare

/-- The place of an array literal without marks. -/
def Element.bare : Element α → Element Unit
  | .hole => .hole
  | .item value => .item value.bare

/-- The places of an array literal without marks. -/
def Element.bareAll : List (Element α) → List (Element Unit)
  | [] => []
  | e :: es => e.bare :: Element.bareAll es

/-- The part of an object literal without marks. -/
def ObjectMember.bare : ObjectMember α → ObjectMember Unit
  | .property key value => .property key.bare value.bare
  | .spread value => .spread value.bare

/-- The parts of an object literal without marks. -/
def ObjectMember.bareAll : List (ObjectMember α) → List (ObjectMember Unit)
  | [] => []
  | e :: es => e.bare :: ObjectMember.bareAll es

/-- The body of a function without marks. -/
def FunctionBody.bare : FunctionBody α → FunctionBody Unit
  | .block body => .block (Stmt.bareAll body)
  | .expression value => .expression value.bare

/-- The statement without marks. -/
def Stmt.bare : Stmt α → Stmt Unit
  | .expression _ value => .expression () value.bare
  | .declaration _ kind declarators => .declaration () kind (Declarator.bareAll declarators)
  | .function _ name params body => .function () name (Expr.bareAll params) (Stmt.bareAll body)
  | .returning _ value => .returning () (Expr.bareSome value)
  | .branch _ test consequent alternate =>
    .branch () test.bare consequent.bare (Stmt.bareSome alternate)
  | .block _ body => .block () (Stmt.bareAll body)
  | .forLoop _ init test update body =>
    .forLoop () (Stmt.bareSome init) (Expr.bareSome test) (Expr.bareSome update) body.bare
  | .forIn _ head subject body => .forIn () head.bare subject.bare body.bare
  | .forOf _ head subject body => .forOf () head.bare subject.bare body.bare
  | .whileLoop _ test body => .whileLoop () test.bare body.bare
  | .doWhile _ body test => .doWhile () body.bare test.bare
  | .attempt _ body handler finalizer =>
    .attempt () body.bare (Handler.bareSome handler) (Stmt.bareSome finalizer)
  | .throwing _ value => .throwing () value.bare
  | .breaking _ label => .breaking () label
  | .continuing _ label => .continuing () label
  | .switch _ subject cases => .switch () subject.bare (SwitchCase.bareAll cases)
  | .labeled _ label body => .labeled () label body.bare
  | .empty _ => .empty ()
  | .hidden _ => .hidden ()

/-- The statements without marks. -/
def Stmt.bareAll : List (Stmt α) → List (Stmt Unit)
  | [] => []
  | s :: rest => s.bare :: Stmt.bareAll rest

/-- The statement, if there is one, without marks. -/
def Stmt.bareSome : Option (Stmt α) → Option (Stmt Unit)
  | none => none
  | some s => some s.bare

/-- The declared pattern with its initial value, without marks. -/
def Declarator.bare : Declarator α → Declarator Unit
  | .mk pattern init => .mk pattern.bare (Expr.bareSome init)

/-- The declared patterns without marks. -/
def Declarator.bareAll : List (Declarator α) → List (Declarator Unit)
  | [] => []
  | d :: ds => d.bare :: Declarator.bareAll ds

/-- The head of a loop without marks. -/
def ForHead.bare : ForHead α → ForHead Unit
  | .declaration value => .declaration value.bare
  | .pattern target => .pattern target.bare

/-- The handler without marks. -/
def Handler.bare : Handler α → Handler Unit
  | .mk param body => .mk (Expr.bareSome param) body.bare

/-- The handler, if there is one, without marks. -/
def Handler.bareSome : Option (Handler α) → Option (Handler Unit)
  | none => none
  | some handler => some handler.bare

/-- The case of a `switch` without marks. -/
def SwitchCase.bare : SwitchCase α → SwitchCase Unit
  | .mk test consequent => .mk (Expr.bareSome test) (Stmt.bareAll consequent)

/-- The cases of a `switch` without marks. -/
def SwitchCase.bareAll : List (SwitchCase α) → List (SwitchCase Unit)
  | [] => []
  | arm :: arms => arm.bare :: SwitchCase.bareAll arms

end

/-! ## Lists and options -/

theorem eq_map_of_cons {β : Type} {f : α → β} {all : List α → List β} (nil : all [] = [])
    (cons : ∀ a l, all (a :: l) = f a :: all l) (l : List α) : all l = l.map f := by
  induction l with
  | nil => exact nil
  | cons a l ih => rw [cons, ih, List.map_cons]

@[simp] theorem Expr.bareAll_eq (l : List (Expr α)) : Expr.bareAll l = l.map Expr.bare :=
  eq_map_of_cons rfl (fun _ _ => rfl) l

@[simp] theorem Element.bareAll_eq (l : List (Element α)) :
    Element.bareAll l = l.map Element.bare :=
  eq_map_of_cons rfl (fun _ _ => rfl) l

@[simp] theorem ObjectMember.bareAll_eq (l : List (ObjectMember α)) :
    ObjectMember.bareAll l = l.map ObjectMember.bare :=
  eq_map_of_cons rfl (fun _ _ => rfl) l

@[simp] theorem Stmt.bareAll_eq (l : List (Stmt α)) : Stmt.bareAll l = l.map Stmt.bare :=
  eq_map_of_cons rfl (fun _ _ => rfl) l

@[simp] theorem Declarator.bareAll_eq (l : List (Declarator α)) :
    Declarator.bareAll l = l.map Declarator.bare :=
  eq_map_of_cons rfl (fun _ _ => rfl) l

@[simp] theorem SwitchCase.bareAll_eq (l : List (SwitchCase α)) :
    SwitchCase.bareAll l = l.map SwitchCase.bare :=
  eq_map_of_cons rfl (fun _ _ => rfl) l

@[simp] theorem Expr.bareSome_eq (e : Option (Expr α)) : Expr.bareSome e = e.map Expr.bare := by
  cases e <;> rfl

@[simp] theorem Stmt.bareSome_eq (s : Option (Stmt α)) : Stmt.bareSome s = s.map Stmt.bare := by
  cases s <;> rfl

@[simp] theorem Handler.bareSome_eq (h : Option (Handler α)) :
    Handler.bareSome h = h.map Handler.bare := by
  cases h <;> rfl

@[simp] theorem Expr.bare_withMark (mark : α) (e : Expr α) : (e.withMark mark).bare = e.bare := by
  cases e <;> rfl

end TidyScript
