import TidyScript.Proofs.Grammar.Operator
import TidyScript.Proofs.Grammar.Unfolding
import TidyScript.Proofs.Tree.Order

/-!
# What productions yield

A production that ends by completing a node of one kind yields nodes of that kind only. Most
productions complete nodes that are not plain, so that a plain node tells how it was read.
-/

namespace TidyScript.Grammar

-- productions are long rows of steps
set_option synthInstance.maxSize 1000000000

variable {α β : Type} {p : Productions}

/-- Every result of the parse has the property. -/
class Yields (property : α → Prop) (x : Parse α) : Prop where
  yields : ∀ {s a s'}, x s = .ok a s' → property a

/-- Every node that is built has the property. -/
class Shaped (property : α → Prop) (build : Mark → α) : Prop where
  shaped : ∀ mark, property (build mark) := by first | exact fun _ => rfl | exact fun _ => nofun

namespace Yields

variable {property : α → Prop}

instance unfolds {x y : Parse α} [unfolds : Unfolds x y] [yields : Yields property y] :
    Yields property x :=
  unfolds.eq ▸ yields

instance bind {x : Parse β} {f : β → Parse α} [last : ∀ b, Yields property (f b)] :
    Yields property (x >>= f) where
  yields run := by
    obtain ⟨b, _, _, run⟩ := bind_eq_ok.1 run
    exact (last b).yields run

instance ite {c : Prop} [Decidable c] {x y : Parse α} [Yields property x]
    [Yields property y] : Yields property (if c then x else y) := by split <;> assumption

instance expected {what : String} : Yields property (Grammar.expected what : Parse α) :=
  ⟨fun run => absurd run expected_ne_ok⟩

instance finishExpr {property : Expr Mark → Prop} {start : Nat} {build : Mark → Expr Mark}
    [shaped : Shaped property build] : Yields property (Grammar.finishExpr start build) where
  yields run := (finishExpr_eq_ok.1 run).1 ▸ shaped.shaped _

instance finishStmt {property : Stmt Mark → Prop} {start : Nat} {build : Mark → Stmt Mark}
    [shaped : Shaped property build] : Yields property (Grammar.finishStmt start build) where
  yields run := (finishStmt_eq_ok.1 run).1 ▸ shaped.shaped _

end Yields

/-! ## Expressions -/

/-- The expression is not plain. -/
def NotPlain (e : Expr Mark) : Prop :=
  e.isPlain = false

/-- Nor is the expression that is added to an operand, if there is one. -/
def LinkNotPlain (longer? : Option (Expr Mark)) : Prop :=
  ∀ e, longer? = some e → e.isPlain = false

section Shapes

variable {name : Option String} {word : String} {e : Expr Mark} {es : List (Expr Mark)}
  {body : FunctionBody Mark} {key : Key Mark} {elements : List (Element Mark)}
  {members : List (ObjectMember Mark)} {flag : Bool}

instance : Shaped NotPlain (.function · name es body flag) where
instance : Shaped NotPlain (.array · elements) where
instance : Shaped NotPlain (.object · members) where
instance : Shaped NotPlain (.construct · e es) where
instance : Shaped NotPlain (.member · e key flag) where
instance : Shaped NotPlain (.call · e es flag) where
instance : Shaped NotPlain (.spread · e) where
instance {target value : Expr Mark} : Shaped NotPlain (.assignment · word target value) where
instance : Shaped NotPlain .hidden where

end Shapes

theorem isPlain_of_yields {x : Parse (Expr Mark)} [yields : Yields NotPlain x] {s s' : State}
    {e : Expr Mark} (run : x s = .ok e s') : e.isPlain = false :=
  yields.yields run

instance : Yields LinkNotPlain (pure none) where
  yields run := by
    rw [← (pure_eq_ok.1 run).1]
    nofun

instance {start : Nat} {build : Mark → Expr Mark} [shaped : Shaped NotPlain build] :
    Yields LinkNotPlain (finishExpr start build >>= fun e => pure (some e)) where
  yields run e same := by
    obtain ⟨made, _, finish, run⟩ := bind_eq_ok.1 run
    obtain ⟨rfl, rfl⟩ := pure_eq_ok.1 run
    cases same
    exact isPlain_of_yields finish

/-- Compound operands are plain only in parentheses. -/
theorem compound_of_isPlain {token : Token} {state state' : State} {e : Expr Mark}
    (run : compound p token state = .ok e state') (plain : e.isPlain = true) :
    token.isPunct "(" = true ∧ parenthesized p state = .ok e state' := by
  unfold compound at run
  split at run
  · simp [isPlain_of_yields run] at plain
  split at run
  · simp [isPlain_of_yields run] at plain
  split at run
  · next opens => exact ⟨opens, run⟩
  split at run
  · simp [isPlain_of_yields run] at plain
  split at run
  · simp [isPlain_of_yields run] at plain
  · exact absurd run unexpected_ne_ok

/-! ## Statements -/

/-- The statement is no bare expression. -/
def NotExpression (x : Stmt Mark) : Prop :=
  ∀ mark value, x ≠ .expression mark value

section Shapes

variable {kind : DeclarationKind} {declarators : List (Declarator Mark)} {name : String}
  {word label : Option String} {e : Expr Mark} {e? test? : Option (Expr Mark)}
  {es : List (Expr Mark)} {x : Stmt Mark} {x? : Option (Stmt Mark)} {xs : List (Stmt Mark)}
  {head : ForHead Mark} {handler? : Option (Handler Mark)} {cases : List (SwitchCase Mark)}

instance : Shaped NotExpression (.block · xs) where
instance : Shaped NotExpression (.declaration · kind declarators) where
instance : Shaped NotExpression (.function · name es xs) where
instance : Shaped NotExpression (.branch · e x x?) where
instance : Shaped NotExpression (.forLoop · x? e? test? x) where
instance : Shaped NotExpression (.forIn · head e x) where
instance : Shaped NotExpression (.forOf · head e x) where
instance : Shaped NotExpression (.whileLoop · e x) where
instance : Shaped NotExpression (.doWhile · x e) where
instance : Shaped NotExpression (.returning · e?) where
instance : Shaped NotExpression (.throwing · e) where
instance : Shaped NotExpression (.attempt · x handler? x?) where
instance : Shaped NotExpression (.switch · e cases) where
instance : Shaped NotExpression (.labeled · name x) where
instance : Shaped NotExpression .empty where
instance : Shaped NotExpression .hidden where

instance {c : Prop} [Decidable c] : Shaped NotExpression fun mark =>
    if c then .breaking mark label else .continuing mark label where
  shaped mark := by
    split <;> nofun

end Shapes

instance {start : Nat} {head : Option (ForHead Mark)} {token : Token} :
    Yields NotExpression (forRest p start head token) := by
  unfold forRest
  split <;> infer_instance

/-- A statement that is chosen by its first tokens is no bare expression. -/
theorem yields_of_statementAhead? {state : State} {production : Parse (Stmt Mark)}
    (found : statementAhead? p state = some production) : Yields NotExpression production := by
  apply of_statementAhead? found <;> intros <;> and_intros <;> infer_instance

end TidyScript.Grammar
