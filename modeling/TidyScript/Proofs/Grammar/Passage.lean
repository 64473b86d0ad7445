import TidyScript.Proofs.Grammar.Ownership

/-!
# What statements pass on

The productions of statements take tokens, change the mode and complete statements; all else they
leave to the productions of expressions. A relation between the states before and behind a parse
that is respected by these three steps is a passage. Whatever such a relation says, it holds along
every statement as soon as it holds along the expressions: the statements are gone through here once
for all relations. So are the members of classes, which are read without becoming part of a tree.
-/

namespace TidyScript.Grammar

-- productions are long rows of steps
set_option synthInstance.maxSize 1000000000

variable {α β : Type}

/-- The relation is respected by changing the mode and by completing a statement as well. -/
class Passage (passes : State → State → Prop) : Prop extends Track passes where
  inMode : ∀ s noIn, passes s (s.inMode noIn)
  growStmt : ∀ s x, passes s (s.growStmt x)

namespace Along

variable {passes : State → State → Prop} [way : Passage passes]

theorem of_advances {s s' : State} (advances : s.Advances s') : passes s s' := by
  induction advances with
  | refl => exact way.refl s
  | next _ ih => exact way.trans ih (way.next _)

/-- A parse that touches no table. -/
instance (priority := low) of_still {x : Parse α} [still : Still x] : Along passes x :=
  ⟨fun run => of_advances (still.along run)⟩

instance pushStmt {span : Span} {build : Mark → Stmt Mark} :
    Along passes (Grammar.pushStmt span build) where
  along run := by
    cases run
    exact way.growStmt _ _

instance finishStmt {start : Nat} {build : Mark → Stmt Mark} :
    Along passes (Grammar.finishStmt start build) :=
  seq of_still fun _ => pushStmt

instance withNoIn {x : Parse α} [inside : Along passes x] (noIn : Bool) :
    Along passes (Grammar.withNoIn noIn x) where
  along {s _ _} run := by
    obtain ⟨middle, inner, rfl⟩ := withNoIn_eq_ok.1 run
    exact way.trans (way.trans (way.inMode s noIn) (inside.along inner)) (way.inMode middle s.noIn)

/-! ## Classes

The members of a class are read and left behind, so a class passes on what its parts do. -/

variable {p : Productions}

instance classKey [Along passes p.assignment] : Along passes (Grammar.classKey p) := by
  refine seq of_still fun token => ?_
  split <;> infer_instance

/-! ## Statements -/

instance forInit (head : Option (ForHead Mark)) : Along passes (Grammar.forInit head) := by
  unfold Grammar.forInit
  split <;> infer_instance

section Statements

-- the relation holds along the statements that are called and along the expressions

variable [Along passes p.statement] [Along passes (params p)] [Along passes (classBody p)]
  [Along passes (primary p)] [Along passes (bindingTarget (primary p))]
  [Along passes (assignment p)] [Along passes (expression p)]

instance forRest {start : Nat} {head : Option (ForHead Mark)} {token : Token} :
    Along passes (Grammar.forRest p start head token) := by
  unfold Grammar.forRest
  split <;> infer_instance

theorem of_statementAhead? {state : State} {production : Parse (Stmt Mark)}
    (found : statementAhead? p state = some production) : Along passes production := by
  apply Grammar.of_statementAhead? found <;> intros <;> and_intros <;> infer_instance

/-- **What holds along the expressions holds along every statement.** -/
instance statement : Along passes (Grammar.statement p) := by
  refine seq of_still fun state => ?_
  split
  · next production found => exact of_statementAhead? found
  · infer_instance

end Statements

/-! ## Whole sources -/

instance readProgram [∀ depth, Along passes (Productions.upTo depth).statement] :
    Along passes Grammar.readProgram where
  along {s _ _} run := by
    let p := Productions.upTo (s.rest.length + 1)
    exact (inferInstance : Along passes (Grammar.manyUntil Grammar.atEnd p.statement)).along run

instance readSingleExpression [each : ∀ depth, Along passes (expression (Productions.upTo depth))] :
    Along passes Grammar.readSingleExpression := by
  have : Along passes readExpression := ⟨fun run => (each _).along run⟩
  unfold Grammar.readSingleExpression
  infer_instance

end Along

end TidyScript.Grammar
