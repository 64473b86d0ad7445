import TidyScript.Grammar.Infix
import TidyScript.Proofs.Tree.Bare

/-!
# What does not depend on places

What a parse reads from a row depends on the place of the row only in its marks. Each kind of value
that a parse can read is given the view that is left without places. Values are alike when their
views are the same, and nodes built from parts that are alike are alike.

Likeness is a class, so that it is found for a node from the likeness of its parts.
-/

namespace TidyScript.Grammar

variable {α : Type}

/-- What of a value does not depend on the place where it has been read. -/
class View (α : Type) where
  Image : Type
  view : α → Image

/-- The values agree apart from places. -/
class Like [View α] (a b : α) : Prop where
  alike : View.view a = View.view b

section Views

instance : View Unit := ⟨Unit, id⟩
instance : View String := ⟨String, id⟩
instance : View Token := ⟨TokenKind × String, fun token => (token.kind, token.comparable)⟩
instance : View (Expr Mark) := ⟨Expr Unit, Expr.bare⟩
instance : View (Stmt Mark) := ⟨Stmt Unit, Stmt.bare⟩
instance : View (Key Mark) := ⟨Key Unit, Key.bare⟩
instance : View (Element Mark) := ⟨Element Unit, Element.bare⟩
instance : View (ObjectMember Mark) := ⟨ObjectMember Unit, ObjectMember.bare⟩
instance : View (FunctionBody Mark) := ⟨FunctionBody Unit, FunctionBody.bare⟩
instance : View (Declarator Mark) := ⟨Declarator Unit, Declarator.bare⟩
instance : View (ForHead Mark) := ⟨ForHead Unit, ForHead.bare⟩
instance : View (Handler Mark) := ⟨Handler Unit, Handler.bare⟩
instance : View (SwitchCase Mark) := ⟨SwitchCase Unit, SwitchCase.bare⟩
instance [View α] : View (List α) := ⟨List (View.Image α), List.map View.view⟩
instance [View α] : View (Option α) := ⟨Option (View.Image α), Option.map View.view⟩

end Views

section Likes

variable {a b c a' b' c' : Expr Mark} {as as' : List (Expr Mark)} {o o' q q' : Option (Expr Mark)}
  {r z r' z' : Stmt Mark} {rs rs' : List (Stmt Mark)} {w w' : Option (Stmt Mark)} {m m' : Mark}
  {u u' : String} {n n' : Option String} {k k' : Key Mark} {f f' : FunctionBody Mark}
  {h h' : ForHead Mark} {flag flag' : Bool}

theorem Like.strings (like : Like n n') : n = n' := by
  have alike : n.map id = n'.map id := like.alike
  simpa using alike

theorem Like.stmt (like : Like r r') : r.bare = r'.bare := like.alike

theorem like_iff [View α] {a b : α} : Like a b ↔ View.view a = View.view b :=
  ⟨fun like => like.alike, fun alike => ⟨alike⟩⟩

/-- Nodes are alike by what is known of their parts. -/
theorem Like.node [View α] {a b : α} (alike : View.view a = View.view b := by
    simp_all [like_iff, View.view, Infix.build, Expr.bare, Key.bare, Element.bare,
      ObjectMember.bare, FunctionBody.bare, Stmt.bare, Declarator.bare, ForHead.bare, Handler.bare,
      SwitchCase.bare]) : Like a b :=
  ⟨alike⟩

/-! ### Lists and options -/

instance (u v : Unit) : Like u v := ⟨rfl⟩
instance [View α] : Like ([] : List α) [] := ⟨rfl⟩
instance [View α] : Like (none : Option α) none := ⟨rfl⟩
instance : Like u u := ⟨rfl⟩

instance [View α] {a b : α} {as bs : List α} [head : Like a b] [tail : Like as bs] :
    Like (a :: as) (b :: bs) :=
  ⟨List.cons_eq_cons.2 ⟨head.alike, tail.alike⟩⟩

instance [View α] {a b : α} [inner : Like a b] : Like (some a) (some b) :=
  ⟨congrArg some inner.alike⟩

/-! ### Expressions -/

instance [Like a a'] : Like (a.withMark m) (a'.withMark m') := .node

instance [Like u u'] : Like (Expr.identifier m u) (.identifier m' u') := .node

instance {op : UnaryOp} [Like a a'] : Like (Expr.unary m op a) (.unary m' op a') := .node

instance [Like a a'] : Like (Expr.update m flag flag' a) (.update m' flag flag' a') := .node

instance {op : Infix} [Like a a'] [Like b b'] : Like (op.build a b m) (op.build a' b' m') := by
  cases op <;> exact .node

instance [Like a a'] [Like b b'] [Like c c'] :
    Like (Expr.conditional m a b c) (.conditional m' a' b' c') := .node

instance [Like a a'] [Like b b'] : Like (Expr.assignment m u a b) (.assignment m' u a' b') := .node

instance [Like a a'] [Like k k'] : Like (Expr.member m a k flag) (.member m' a' k' flag) := .node

instance [Like a a'] [Like as as'] : Like (Expr.call m a as flag) (.call m' a' as' flag) := .node

instance [Like a a'] [Like as as'] : Like (Expr.construct m a as) (.construct m' a' as') := .node

instance {es es' : List (Element Mark)} [Like es es'] :
    Like (Expr.array m es) (.array m' es') := .node

instance {ms ms' : List (ObjectMember Mark)} [Like ms ms'] :
    Like (Expr.object m ms) (.object m' ms') := .node

instance [Like n n'] [Like as as'] [Like f f'] :
    Like (Expr.function m n as f flag) (.function m' n' as' f' flag) := .node

instance [Like as as'] : Like (Expr.sequence m as) (.sequence m' as') := .node

instance [Like a a'] : Like (Expr.spread m a) (.spread m' a') := .node

instance : Like (Expr.hidden m) (.hidden m') := ⟨rfl⟩

/-! ### Parts of expressions -/

instance [Like u u'] : Like (Key.named u : Key Mark) (.named u') := .node

instance [Like a a'] : Like (Key.computed a) (.computed a') := .node

instance : Like (Element.hole : Element Mark) .hole := ⟨rfl⟩

instance [Like a a'] : Like (Element.item a) (.item a') := .node

instance [Like k k'] [Like a a'] : Like (ObjectMember.property k a) (.property k' a') := .node

instance [Like a a'] : Like (ObjectMember.spread a) (.spread a') := .node

instance [Like rs rs'] : Like (FunctionBody.block rs) (.block rs') := .node

instance [Like a a'] : Like (FunctionBody.expression a) (.expression a') := .node

/-! ### Statements -/

instance [Like a a'] : Like (Stmt.expression m a) (.expression m' a') := .node

instance {kind : DeclarationKind} {ds ds' : List (Declarator Mark)} [Like ds ds'] :
    Like (Stmt.declaration m kind ds) (.declaration m' kind ds') := .node

instance [Like u u'] [Like as as'] [Like rs rs'] :
    Like (Stmt.function m u as rs) (.function m' u' as' rs') := .node

instance [Like o o'] : Like (Stmt.returning m o) (.returning m' o') := .node

instance [Like a a'] [Like r r'] [Like w w'] :
    Like (Stmt.branch m a r w) (.branch m' a' r' w') := .node

instance [Like rs rs'] : Like (Stmt.block m rs) (.block m' rs') := .node

instance [Like w w'] [Like o o'] [Like q q'] [Like r r'] :
    Like (Stmt.forLoop m w o q r) (.forLoop m' w' o' q' r') := .node

instance [Like h h'] [Like a a'] [Like r r'] :
    Like (Stmt.forIn m h a r) (.forIn m' h' a' r') := .node

instance [Like h h'] [Like a a'] [Like r r'] :
    Like (Stmt.forOf m h a r) (.forOf m' h' a' r') := .node

instance [Like a a'] [Like r r'] : Like (Stmt.whileLoop m a r) (.whileLoop m' a' r') := .node

instance [Like a a'] [Like r r'] : Like (Stmt.doWhile m r a) (.doWhile m' r' a') := .node

instance {g g' : Option (Handler Mark)} [Like r r'] [Like g g'] [Like w w'] :
    Like (Stmt.attempt m r g w) (.attempt m' r' g' w') := .node

instance [Like a a'] : Like (Stmt.throwing m a) (.throwing m' a') := .node

instance {cs cs' : List (SwitchCase Mark)} [Like a a'] [Like cs cs'] :
    Like (Stmt.switch m a cs) (.switch m' a' cs') := .node

instance [Like r r'] : Like (Stmt.labeled m u r) (.labeled m' u r') := .node

instance : Like (Stmt.empty m) (.empty m') := ⟨rfl⟩
instance : Like (Stmt.hidden m) (.hidden m') := ⟨rfl⟩

/-! ### Parts of statements -/

instance [Like a a'] [Like o o'] : Like (Declarator.mk a o) ⟨a', o'⟩ := .node

instance [Like r r'] : Like (ForHead.declaration r) (.declaration r') := .node

instance [Like a a'] : Like (ForHead.pattern a) (.pattern a') := .node

instance [Like o o'] [Like r r'] : Like (Handler.mk o r) ⟨o', r'⟩ := .node

instance [Like o o'] [Like rs rs'] : Like (SwitchCase.mk o rs) ⟨o', rs'⟩ := .node

end Likes

end TidyScript.Grammar
