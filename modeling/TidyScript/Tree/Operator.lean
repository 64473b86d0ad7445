/-!
# Operators and how tightly they bind

The operators of expressions, the ladder of binding strengths, and the rule that
decides when an operand has to be put in parentheses.

Comparisons have a complement, the comparison that holds exactly when the first
does not, as long as no side is a non-number. The connectives `&&` and `||` have
each other as their dual; `??` has none.
-/

namespace TidyScript

/-- How tightly an expression binds, loosest first. -/
inductive Precedence where
  | sequence
  | assignment
  | conditional
  | coalesce
  | logicalOr
  | logicalAnd
  | bitOr
  | bitXor
  | bitAnd
  | equality
  | relational
  | shift
  | additive
  | multiplicative
  | exponent
  | unary
  | suffix
  | call
  | primary
deriving DecidableEq, Repr

namespace Precedence

/-- All binding strengths, loosest first. -/
def all : List Precedence :=
  [sequence, assignment, conditional, coalesce, logicalOr, logicalAnd, bitOr, bitXor, bitAnd,
   equality, relational, shift, additive, multiplicative, exponent, unary, suffix, call, primary]

/-- The place of a strength on the ladder. -/
def rank : Precedence → Nat
  | sequence => 0
  | assignment => 1
  | conditional => 2
  | coalesce => 3
  | logicalOr => 4
  | logicalAnd => 5
  | bitOr => 6
  | bitXor => 7
  | bitAnd => 8
  | equality => 9
  | relational => 10
  | shift => 11
  | additive => 12
  | multiplicative => 13
  | exponent => 14
  | unary => 15
  | suffix => 16
  | call => 17
  | primary => 18

instance : LT Precedence := ⟨fun a b => a.rank < b.rank⟩

instance : LE Precedence := ⟨fun a b => a.rank ≤ b.rank⟩

instance (a b : Precedence) : Decidable (a < b) := inferInstanceAs (Decidable (a.rank < b.rank))

instance (a b : Precedence) : Decidable (a ≤ b) := inferInstanceAs (Decidable (a.rank ≤ b.rank))

/-- The strengths of the three short-circuit connectives. -/
def isShortCircuit : Precedence → Bool
  | coalesce => true
  | logicalOr => true
  | logicalAnd => true
  | _ => false

/-- Does an operand that binds with strength `operand` need parentheses under an
operator of strength `parent`? On the right an operand of equal strength does,
since operators group to the left, and `??` never mixes with the other two
connectives without parentheses. -/
def needsParens (operand parent : Precedence) (right : Bool) : Bool :=
  let mixes := operand ≠ parent &&
    ((operand = coalesce && parent.isShortCircuit) || (parent = coalesce && operand.isShortCircuit))
  mixes || operand < parent || (right && operand = parent)

end Precedence

/-- The operators with two operands that are both always evaluated. -/
inductive BinaryOp where
  | strictEqual
  | strictNotEqual
  | equal
  | notEqual
  | less
  | greater
  | lessEqual
  | greaterEqual
  | add
  | subtract
  | multiply
  | divide
  | modulo
  | power
  | bitAnd
  | bitOr
  | bitXor
  | shiftLeft
  | shiftRight
  | shiftRightUnsigned
  | membership
  | instanceOf
deriving DecidableEq, Repr

namespace BinaryOp

/-- All binary operators. -/
def all : List BinaryOp :=
  [strictEqual, strictNotEqual, equal, notEqual, less, greater, lessEqual, greaterEqual, add,
   subtract, multiply, divide, modulo, power, bitAnd, bitOr, bitXor, shiftLeft, shiftRight,
   shiftRightUnsigned, membership, instanceOf]

/-- The operator as written. -/
def text : BinaryOp → String
  | strictEqual => "==="
  | strictNotEqual => "!=="
  | equal => "=="
  | notEqual => "!="
  | less => "<"
  | greater => ">"
  | lessEqual => "<="
  | greaterEqual => ">="
  | add => "+"
  | subtract => "-"
  | multiply => "*"
  | divide => "/"
  | modulo => "%"
  | power => "**"
  | bitAnd => "&"
  | bitOr => "|"
  | bitXor => "^"
  | shiftLeft => "<<"
  | shiftRight => ">>"
  | shiftRightUnsigned => ">>>"
  | membership => "in"
  | instanceOf => "instanceof"

/-- The operator written `text`. -/
def ofText? (text : String) : Option BinaryOp :=
  all.find? fun op => op.text = text

/-- The comparison that holds exactly when this one does not. -/
def complement? : BinaryOp → Option BinaryOp
  | strictEqual => some strictNotEqual
  | strictNotEqual => some strictEqual
  | equal => some notEqual
  | notEqual => some equal
  | greaterEqual => some less
  | less => some greaterEqual
  | greater => some lessEqual
  | lessEqual => some greater
  | _ => none

/-- Is the operator a comparison with a complement? -/
def isComparison (op : BinaryOp) : Bool :=
  op.complement?.isSome

/-- How tightly the operator binds. -/
def precedence : BinaryOp → Precedence
  | strictEqual => .equality
  | strictNotEqual => .equality
  | equal => .equality
  | notEqual => .equality
  | less => .relational
  | greater => .relational
  | lessEqual => .relational
  | greaterEqual => .relational
  | membership => .relational
  | instanceOf => .relational
  | add => .additive
  | subtract => .additive
  | multiply => .multiplicative
  | divide => .multiplicative
  | modulo => .multiplicative
  | power => .exponent
  | bitAnd => .bitAnd
  | bitOr => .bitOr
  | bitXor => .bitXor
  | shiftLeft => .shift
  | shiftRight => .shift
  | shiftRightUnsigned => .shift

end BinaryOp

/-- The connectives, which evaluate their right operand only if they have to. -/
inductive LogicalOp where
  | and
  | or
  | coalesce
deriving DecidableEq, Repr

namespace LogicalOp

/-- The connective as written. -/
def text : LogicalOp → String
  | and => "&&"
  | or => "||"
  | coalesce => "??"

/-- The connective written `text`. -/
def ofText? (text : String) : Option LogicalOp :=
  [and, or, coalesce].find? fun op => op.text = text

/-- The connective that takes this one's place when a negation moves inward. -/
def dual? : LogicalOp → Option LogicalOp
  | and => some or
  | or => some and
  | coalesce => none

/-- How tightly the connective binds. -/
def precedence : LogicalOp → Precedence
  | and => .logicalAnd
  | or => .logicalOr
  | coalesce => .coalesce

end LogicalOp

/-- The operators in front of their one operand. -/
inductive UnaryOp where
  | not
  | minus
  | plus
  | bitNot
  | typeOf
  | void
  | delete
  | await
deriving DecidableEq, Repr

namespace UnaryOp

/-- All unary operators. -/
def all : List UnaryOp :=
  [not, minus, plus, bitNot, typeOf, void, delete, await]

/-- The operator as written. -/
def text : UnaryOp → String
  | not => "!"
  | minus => "-"
  | plus => "+"
  | bitNot => "~"
  | typeOf => "typeof"
  | void => "void"
  | delete => "delete"
  | await => "await"

/-- The operator written `text`. -/
def ofText? (text : String) : Option UnaryOp :=
  all.find? fun op => op.text = text

end UnaryOp

end TidyScript
