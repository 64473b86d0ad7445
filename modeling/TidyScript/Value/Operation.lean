import TidyScript.Tree.Operator
import TidyScript.Value.Basic

/-!
# Operators on values

What the unary and binary operators do with primitive values. Four operators have no
result on them: `delete`, `await`, `in` and `instanceof`.
-/

namespace TidyScript

/-- The result of a unary operator. -/
def UnaryOp.result? (op : UnaryOp) (value : Value) : Option Value :=
  match op with
  | .not => some (.boolean !value.isTruthy)
  | .minus => some (.number (-value.toNumber))
  | .plus => some (.number value.toNumber)
  | .bitNot => some (.number (Number.ofInt (~~~Number.toInt32 value.toNumber).toInt))
  | .typeOf => some (.string value.typeName)
  | .void => some .undefined
  | .delete => none
  | .await => none

namespace Value

/-- The sum of two values: a joined text if either is a text, a number otherwise. -/
def plus (a b : Value) : Value :=
  match a, b with
  | string _, _ => string (a.toText ++ b.toText)
  | _, string _ => string (a.toText ++ b.toText)
  | _, _ => number (a.toNumber + b.toNumber)

/-- A power. Unlike in the usual real function, a non-number as exponent, and an
infinite exponent of one or minus one, give the non-number. -/
def powerOf (base exponent : Float) : Float :=
  if exponent.isNaN || (base.abs == 1 && exponent.isInf) then Number.nan
  else Float.pow base exponent

/-- An operation on the signed 32-bit forms of two values. -/
def onWords (f : BitVec 32 → BitVec 32 → BitVec 32) (a b : Value) : Value :=
  number (Number.ofInt (f (Number.toInt32 a.toNumber) (Number.toInt32 b.toNumber)).toInt)

/-- How far a shift by the value goes: its lowest five bits. -/
def shiftCount (value : Value) : Nat :=
  (Number.toInt32 value.toNumber).toNat % 32

end Value

/-- The result of a binary operator. -/
def BinaryOp.result? (op : BinaryOp) (a b : Value) : Option Value :=
  match op with
  | .strictEqual => some (.boolean (a.strictEquals b))
  | .strictNotEqual => some (.boolean !(a.strictEquals b))
  | .equal => some (.boolean (a.looseEquals b))
  | .notEqual => some (.boolean !(a.looseEquals b))
  | .less => some (.boolean (a.lessThan? b = some true))
  | .greater => some (.boolean (b.lessThan? a = some true))
  | .lessEqual => some (.boolean (b.lessThan? a = some false))
  | .greaterEqual => some (.boolean (a.lessThan? b = some false))
  | .add => some (a.plus b)
  | .subtract => some (.number (a.toNumber - b.toNumber))
  | .multiply => some (.number (a.toNumber * b.toNumber))
  | .divide => some (.number (a.toNumber / b.toNumber))
  | .modulo => some (.number (Number.remainder a.toNumber b.toNumber))
  | .power => some (.number (Value.powerOf a.toNumber b.toNumber))
  | .bitAnd => some (Value.onWords (· &&& ·) a b)
  | .bitOr => some (Value.onWords (· ||| ·) a b)
  | .bitXor => some (Value.onWords (· ^^^ ·) a b)
  | .shiftLeft => some (.number (Number.ofInt (Number.toInt32 a.toNumber <<< b.shiftCount).toInt))
  | .shiftRight =>
    some (.number (Number.ofInt ((Number.toInt32 a.toNumber).sshiftRight b.shiftCount).toInt))
  | .shiftRightUnsigned =>
    some (.number (Float.ofNat (Number.toInt32 a.toNumber >>> b.shiftCount).toNat))
  | .membership => none
  | .instanceOf => none

/-- Does a connective stop at the value of its left operand? -/
def LogicalOp.stopsAt (op : LogicalOp) (left : Value) : Bool :=
  match op with
  | .and => !left.isTruthy
  | .or => left.isTruthy
  | .coalesce => !left.isNullish

end TidyScript
