import TidyScript.Logic.Law
import TidyScript.Value.Operation

/-!
# The laws on values

Each law that shortens a logical expression holds for the values of the operands, whether or not
they have one: `none` stands for an operand that evaluation gets stuck at. The alternative that
two folded conditionals share is an absent value.
-/

namespace TidyScript

/-- What a connective makes of its two operands. -/
def LogicalOp.outcome (op : LogicalOp) (left right : Option Value) : Option Value :=
  left.bind fun a => if op.stopsAt a then some a else right

/-- What a conditional makes of its three operands. -/
def Value.pick (test yes no : Option Value) : Option Value :=
  test.bind fun v => if v.isTruthy then yes else no

/-- The negation of a value. -/
def Value.opposite (value : Option Value) : Option Value :=
  value.bind UnaryOp.not.result?

@[simp] theorem Value.isTruthy_boolean (b : Bool) : (boolean b).isTruthy = b := rfl

namespace LogicalOp

open Value (pick opposite)

variable {op : LogicalOp}

/-- `x ∘ x` is `x`. -/
theorem outcome_self (op : LogicalOp) (x : Option Value) : op.outcome x x = x := by
  cases x <;> simp [outcome]

/-- `X ∘ (X • Y)` is `X` for dual connectives. -/
theorem outcome_absorb {dual : LogicalOp} (isDual : op.dual? = some dual) (x y : Option Value) :
    op.outcome x (dual.outcome x y) = x := by
  cases x with
  | none => rfl
  | some v =>
    cases op with
    | coalesce => cases isDual
    | and => cases isDual; cases truthy : v.isTruthy <;> simp [outcome, stopsAt, truthy]
    | or => cases isDual; cases truthy : v.isTruthy <;> simp [outcome, stopsAt, truthy]

/-- `(X ∘ A) • (X ∘ B)` is `X ∘ (A • B)`. -/
theorem outcome_distribute (outer op : LogicalOp) (x a b : Option Value) :
    outer.outcome (op.outcome x a) (op.outcome x b) = op.outcome x (outer.outcome a b) := by
  cases x with
  | none => rfl
  | some v => cases stops : op.stopsAt v <;> simp [outcome, stops]

/-- Behind an absent value, a connective that moves past it gives its right operand. -/
theorem outcome_nullish {v : Value} (absent : v.isNullish = true)
    (passes : Program.passesNullish op = true) (x : Option Value) :
    op.outcome (some v) x = x := by
  have falsy : v.isTruthy = false := by cases v <;> first | rfl | cases absent
  cases op with
  | and => cases passes
  | or => simp [outcome, stopsAt, falsy]
  | coalesce => simp [outcome, stopsAt, absent]

/-- `(Q ? A : F) ∘ (Q ? B : F)` is `Q ? (A ∘ B) : F`. -/
theorem outcome_pick_same (op : LogicalOp) (q a b f : Option Value) :
    op.outcome (pick q a f) (pick q b f) = pick q (op.outcome a b) f := by
  cases q with
  | none => rfl
  | some v => cases truthy : v.isTruthy <;> simp [pick, truthy, outcome_self]

/-- `(Q ? A : F) ∘ (!Q ? B : F)` is `Q ? (A ∘ F) : B`. -/
theorem outcome_pick_negated {v : Value} (absent : v.isNullish = true)
    (passes : Program.passesNullish op = true) (q a b : Option Value) :
    op.outcome (pick q a (some v)) (pick (opposite q) b (some v)) =
      pick q (op.outcome a (some v)) b := by
  cases q with
  | none => rfl
  | some w =>
    cases truthy : w.isTruthy <;>
      simp [pick, opposite, UnaryOp.result?, truthy, outcome_nullish absent passes]

/-- `(!Q ? A : F) ∘ (Q ? B : F)` is `Q ? B : (A ∘ F)`. -/
theorem outcome_negated_pick {v : Value} (absent : v.isNullish = true)
    (passes : Program.passesNullish op = true) (q a b : Option Value) :
    op.outcome (pick (opposite q) a (some v)) (pick q b (some v)) =
      pick q b (op.outcome a (some v)) := by
  cases q with
  | none => rfl
  | some w =>
    cases truthy : w.isTruthy <;>
      simp [pick, opposite, UnaryOp.result?, truthy, outcome_nullish absent passes]

/-- `(P ? A : F) || (Q ? B : F)` is `P && A ? A : Q ? B : F`. -/
theorem outcome_or_pick {v : Value} (absent : v.isNullish = true) (p a z : Option Value) :
    LogicalOp.or.outcome (pick p a (some v)) z = pick (LogicalOp.and.outcome p a) a z := by
  cases p with
  | none => rfl
  | some w =>
    cases truthy : w.isTruthy with
    | false =>
      rw [pick, Option.bind_some, truthy, if_neg (by simp), outcome_nullish absent rfl]
      simp [outcome, stopsAt, truthy, pick]
    | true =>
      cases a with
      | none => simp [pick, outcome, stopsAt, truthy]
      | some u => cases test : u.isTruthy <;> simp [pick, outcome, stopsAt, truthy, test]

end LogicalOp

/-! ## Sameness -/

theorem compare_self_of_not_isNaN {x : Float.Model.UnpackedFloat} (number : x.isNaN = false) :
    x.compare x = some .eq := by
  cases x with
  | notANumber => exact absurd number (by decide)
  | infinity sign => cases sign <;> rfl
  | zero sign => rfl
  | finite sign mantissa exponent =>
    have equal : (compare exponent exponent).then (compare mantissa mantissa) = .eq := by simp
    cases sign with
    | positive => exact congrArg some equal
    | negative => exact congrArg (fun order => some order.swap) equal

theorem beq_self_of_not_isNaN {x : Float} (number : x.isNaN = false) : (x == x) = true := by
  show (x.toModel.unpack.compare x.toModel.unpack == some .eq) = true
  rw [compare_self_of_not_isNaN number]
  rfl

/-- Every value is the same as itself, the one that is no number included. -/
theorem Value.same_self (v : Value) : v.same v = true := by
  cases v with
  | number x =>
    rw [same]
    cases number : x.isNaN with
    | true => rfl
    | false => exact beq_self_of_not_isNaN number
  | _ => simp [same, strictEquals]

end TidyScript
