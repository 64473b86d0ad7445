import TidyScript.Proofs.Phrase.Stitch

/-!
# The weight of an expression

A number for every expression that goes down with each law and with each negation that moves
inward. A negation doubles what stands behind it, which pays for the two negations that take its
place. A connective counts its left operand twice, which pays for the copy that a folded
conditional makes of it. Parentheses weigh nothing.
-/

namespace TidyScript

open Grammar

/-- What an operator in front of an operand makes of its weight. -/
def UnaryOp.weigh (op : UnaryOp) (operand : Nat) : Nat :=
  if op = .not then 2 * operand else operand + 1

/-- What an operator between operands makes of their weights. -/
def Grammar.Infix.weigh (op : Infix) (left right : Nat) : Nat :=
  match op with
  | .logical _ => 2 * left + right + 1
  | .binary _ => left + right + 1

namespace Expr

mutual

/-- The weight of an expression. -/
def weight {α : Type} : Expr α → Nat
  | unary _ op argument => op.weigh (weight argument)
  | binary _ op left right => (Infix.binary op).weigh (weight left) (weight right)
  | logical _ op left right => (Infix.logical op).weigh (weight left) (weight right)
  | conditional _ test consequent alternate => weight test + weight consequent + weight alternate
  | sequence _ items => weights items
  | _ => 1

/-- The weight of expressions in a row. -/
def weights {α : Type} : List (Expr α) → Nat
  | [] => 0
  | item :: items => weight item + weights items

end

theorem weight_withMark {α : Type} (e : Expr α) (mark : α) : (e.withMark mark).weight = e.weight := by
  cases e <;> simp only [withMark, weight]

end Expr

namespace Phrase

/-- The weight of a phrase. -/
def weight : Phrase → Nat
  | atom _ => 1
  | group _ inner _ => inner.weight
  | signed _ op operand => op.weigh operand.weight
  | linked op left _ right => op.weigh left.weight right.weight
  | choice test _ yes _ no => test.weight + yes.weight + no.weight
  | comma first _ rest => first.weight + rest.weight

theorem one_le_weight (φ : Phrase) : 1 ≤ φ.weight := by
  induction φ with
  | atom word => exact Nat.le_refl 1
  | group left inner right ih => exact ih
  | signed sign op operand ih =>
    simp only [weight, UnaryOp.weigh]
    split <;> omega
  | linked op left sign right => cases op <;> simp only [weight, Infix.weigh] <;> omega
  | choice test mark yes colon no ih _ _ => simp only [weight]; omega
  | comma first sign rest ih _ => simp only [weight]; omega

/-! ## The weight of a node -/

theorem weight_leaf (p : Piece) (mark : Mark) : (p.leaf mark).weight = 1 := by
  rcases p.leaf_cases mark with ⟨_, leaf⟩ | ⟨_, leaf⟩ | leaf | leaf <;>
    simp only [leaf, Expr.weight]

/-- The weight of the node, and of the nodes between its commas taken together. -/
theorem weight_node_and_items (φ : Phrase) (count offset : Nat) :
    (φ.node count offset).weight = φ.weight ∧
      Expr.weights (φ.items count offset) = φ.weight := by
  have single : ∀ {ψ : Phrase} {count offset : Nat}, ψ.isRow = false →
      (ψ.node count offset).weight = ψ.weight →
        (ψ.node count offset).weight = ψ.weight ∧
          Expr.weights (ψ.items count offset) = ψ.weight := by
    intro ψ count offset single node
    refine ⟨node, ?_⟩
    rw [items_of_not_isRow count offset single, Expr.weights, Expr.weights, node, Nat.add_zero]
  induction φ generalizing count offset with
  | atom word => exact single rfl (by rw [node_atom, weight_leaf]; rfl)
  | group left inner right ih =>
    exact single rfl (by rw [node_group, Expr.weight_withMark, (ih _ _).1]; rfl)
  | signed sign op operand ih =>
    exact single rfl (by rw [node_signed, Expr.weight, (ih _ _).1]; rfl)
  | linked op left sign right ihLeft ihRight =>
    refine single rfl ?_
    rw [node_linked]
    cases op <;> rw [Infix.build, Expr.weight, (ihLeft _ _).1, (ihRight _ _).1] <;> rfl
  | choice test mark yes colon no ihTest ihYes ihNo =>
    refine single rfl ?_
    rw [node_choice, Expr.weight, (ihTest _ _).1, (ihYes _ _).1, (ihNo _ _).1]
    rfl
  | comma first sign rest ihFirst ihRest =>
    have items : Expr.weights ((comma first sign rest).items count offset) =
        (comma first sign rest).weight := by
      rw [items_comma, Expr.weights, (ihFirst _ _).1, (ihRest _ _).2]
      rfl
    exact ⟨by rw [node_comma, Expr.weight, items], items⟩

/-- **The weight of a phrase is the weight of its node.** -/
theorem weight_node (φ : Phrase) (count offset : Nat) :
    (φ.node count offset).weight = φ.weight :=
  (weight_node_and_items φ count offset).1

/-! ## The weight of new code -/

section Wrapping

variable {φ : Phrase} {gap : List Char} {parent : Precedence} {right : Bool}

@[simp] theorem weight_led (gap : List Char) (φ : Phrase) : (φ.led gap).weight = φ.weight := by
  induction φ with
  | linked op left sign right ih _ => rw [led, weight, weight, ih]
  | choice test mark yes colon no ih _ _ => rw [led, weight, weight, ih]
  | comma first sign rest ih _ => rw [led, weight, weight, ih]
  | _ => rfl

@[simp] theorem weight_wrap : (φ.wrap gap).weight = φ.weight := by
  rw [wrap, weight, weight_led]

@[simp] theorem weight_operand : (φ.operand parent right gap).weight = φ.weight := by
  unfold operand
  split <;> simp

@[simp] theorem weight_asTest : (φ.asTest gap).weight = φ.weight := by
  unfold asTest
  split <;> simp

end Wrapping

end Phrase

end TidyScript
