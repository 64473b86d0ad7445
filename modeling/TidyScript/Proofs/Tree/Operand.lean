import Mathlib.Data.List.Nodup
import TidyScript.Program.Place

/-!
# How tightly operands have to bind

An operand has to bind at least as tightly as its place asks, or it needs parentheses. What a place
asks is stated here for a whole expression, as a bound on the rank of each expression below it: an
expression fits when all of these bounds are kept. For an expression that fits, the rule of
`childNeedsParens` is never broken by an expression that stands below it as it is, with the one
exception of `??` next to `&&` or `||`, which the rule bars whatever they bind.
-/

namespace TidyScript

/-! ## Strengths -/

namespace Precedence

theorem needsParens_iff {operand parent : Precedence} {right : Bool}
    (bound : parent.rank + right.toNat ≤ operand.rank) :
    operand.needsParens parent right = true ↔
      operand ≠ parent ∧ (operand = coalesce ∧ parent.isShortCircuit = true ∨
        parent = coalesce ∧ operand.isShortCircuit = true) := by
  have tight : (decide (operand < parent) || (right && decide (operand = parent))) = false := by
    rw [Bool.or_eq_false_iff, decide_eq_false_iff_not]
    refine ⟨fun less => ?_, ?_⟩
    · have less : operand.rank < parent.rank := less
      omega
    · cases right with
      | false => rfl
      | true =>
        rw [Bool.true_and, decide_eq_false_iff_not]
        rintro rfl
        exact Nat.not_succ_le_self _ bound
  rw [needsParens, Bool.or_assoc, tight]
  simp

end Precedence

/-- The least rank of a left operand. Only `**` groups to the right. -/
def BinaryOp.leftRank (op : BinaryOp) : Nat :=
  op.precedence.rank + (decide (op.precedence = .exponent)).toNat

/-- The least rank of a right operand. -/
def BinaryOp.rightRank (op : BinaryOp) : Nat :=
  op.precedence.rank + (!decide (op.precedence = .exponent)).toNat

theorem BinaryOp.isShortCircuit_precedence (op : BinaryOp) :
    op.precedence.isShortCircuit = false := by
  cases op <;> rfl

/-- Binary operators do not mix with connectives, so only their rank counts. -/
theorem BinaryOp.needsParens_eq_false {op : BinaryOp} {operand : Precedence} {right : Bool}
    (bound : op.precedence.rank + right.toNat ≤ operand.rank) :
    operand.needsParens op.precedence right = false := by
  have noConnective := op.isShortCircuit_precedence
  rw [Bool.eq_false_iff, ne_eq, Precedence.needsParens_iff bound]
  rintro ⟨_, ⟨_, connects⟩ | ⟨isCoalesce, _⟩⟩
  · rw [noConnective] at connects
    cases connects
  · rw [isCoalesce] at noConnective
    cases noConnective

namespace Expr

/-- How tightly an expression binds by its shape, parentheses aside. -/
def inherent : Expr Mark → Precedence
  | function _ _ _ _ arrow => if arrow then .assignment else .primary
  | unary _ _ _ => .unary
  | update _ _ before _ => if before then .unary else .suffix
  | binary _ op _ _ => op.precedence
  | logical _ op _ _ => op.precedence
  | conditional _ _ _ _ => .conditional
  | assignment _ _ _ _ => .assignment
  | spread _ _ => .assignment
  | member _ _ _ _ => .call
  | call _ _ _ _ => .call
  | construct _ _ _ => .call
  | sequence _ _ => .sequence
  | _ => .primary

theorem precedence_eq (e : Expr Mark) :
    e.precedence = if e.isParenthesized then .primary else e.inherent := by
  cases e <;> rfl

/-- How tightly an expression binds as written, as a number. -/
def rank (e : Expr Mark) : Nat :=
  e.precedence.rank

theorem rank_of_isParenthesized {e : Expr Mark} (inside : e.isParenthesized = true) :
    e.rank = 18 := by
  rw [rank, precedence_eq, if_pos inside]
  rfl

theorem rank_of_not_isParenthesized {e : Expr Mark} (bare : e.isParenthesized = false) :
    e.rank = e.inherent.rank := by
  rw [rank, precedence_eq, if_neg (by simp [bare])]

/-! ## Expressions whose operands bind tightly enough -/

/-- Every expression directly below binds as tightly as its place asks. -/
def Fits : Expr Mark → Prop
  | binary _ op left right => op.leftRank ≤ left.rank ∧ op.rightRank ≤ right.rank
  | logical _ op left right => op.precedence.rank ≤ left.rank ∧ op.precedence.rank < right.rank
  | unary _ _ argument => 15 ≤ argument.rank
  | update _ _ _ argument => 15 ≤ argument.rank
  | member _ base _ _ => 17 ≤ base.rank
  | call _ callee _ _ => 17 ≤ callee.rank
  | construct _ callee _ => 17 ≤ callee.rank
  | conditional _ test consequent alternate =>
    3 ≤ test.rank ∧ 1 ≤ consequent.rank ∧ 1 ≤ alternate.rank
  | e => ∀ child, .expr child ∈ e.children → 1 ≤ child.rank

theorem fits_withMark {e : Expr Mark} (fits : e.Fits) (mark : Mark) : (e.withMark mark).Fits := by
  cases e <;> exact fits

/-- The connective of an expression. -/
def connective? : Expr Mark → Option LogicalOp
  | logical _ op _ _ => some op
  | _ => none

/-- The child, without parentheses, and its parent are connectives that do not mix: one is `??` and
the other is `&&` or `||`. -/
def Mixes (parent child : Expr Mark) : Prop :=
  child.isParenthesized = false ∧ ∃ op op', parent.connective? = some op ∧
    child.connective? = some op' ∧
      (op = .coalesce ∧ (op' = .and ∨ op' = .or) ∨ (op = .and ∨ op = .or) ∧ op' = .coalesce)

/-- Only connectives without parentheses bind like connectives. -/
theorem isShortCircuit_precedence {e : Expr Mark} :
    e.precedence.isShortCircuit = true ↔
      e.isParenthesized = false ∧ ∃ op, e.connective? = some op ∧ e.precedence = op.precedence := by
  rw [precedence_eq]
  cases inside : e.isParenthesized with
  | true => simp [Precedence.isShortCircuit]
  | false =>
    simp only [Bool.false_eq_true, reduceIte, true_and]
    cases e with
    | logical mark op left right => cases op <;> simp [inherent, connective?, LogicalOp.precedence,
        Precedence.isShortCircuit]
    | binary mark op left right =>
      simp [inherent, connective?, BinaryOp.isShortCircuit_precedence]
    | function mark name params body arrow =>
      cases arrow <;> simp [inherent, connective?, Precedence.isShortCircuit]
    | update mark increment before argument =>
      cases before <;> simp [inherent, connective?, Precedence.isShortCircuit]
    | _ => simp [inherent, connective?, Precedence.isShortCircuit]

theorem mixes_iff {mark : Mark} {op : LogicalOp} {left right child : Expr Mark} :
    (logical mark op left right).Mixes child ↔ child.precedence ≠ op.precedence ∧
      (child.precedence = .coalesce ∧ op.precedence.isShortCircuit = true ∨
        op.precedence = .coalesce ∧ child.precedence.isShortCircuit = true) := by
  constructor
  · rintro ⟨bare, _, op', ⟨⟩, isOp', pair⟩
    have same : child.precedence = op'.precedence := by
      rw [precedence_eq, if_neg (by simp [bare])]
      cases child <;> cases isOp'
      rfl
    rw [same]
    rcases pair with ⟨rfl, rfl | rfl⟩ | ⟨rfl | rfl, rfl⟩ <;> decide
  · rintro ⟨other, pair⟩
    have connects : child.precedence.isShortCircuit = true := by
      rcases pair with ⟨isCoalesce, _⟩ | ⟨_, connects⟩
      · rw [isCoalesce]
        rfl
      · exact connects
    obtain ⟨bare, op', isOp', same⟩ := isShortCircuit_precedence.1 connects
    refine ⟨bare, op, op', rfl, isOp', ?_⟩
    rw [same] at other pair
    cases op <;> cases op' <;> simp_all [LogicalOp.precedence, Precedence.isShortCircuit]

theorem not_mixes {parent child : Expr Mark} (other : parent.connective? = none) :
    ¬ parent.Mixes child := by
  rintro ⟨_, _, _, isOp, _⟩
  rw [other] at isOp
  cases isOp

theorem precedence_lt_eq_false {e : Expr Mark} (bound : Precedence) (tight : bound.rank ≤ e.rank) :
    decide (e.precedence < bound) = false :=
  decide_eq_false (Nat.not_lt.2 tight)

section Children

variable {parent child : Expr Mark} (distinct : (parent.children.map Node.id).Nodup)
  (below : .expr child ∈ parent.children)

include distinct below

/-- The number of a child tells which one it is. -/
theorem eq_of_index_eq {other : Expr Mark} (belowOther : .expr other ∈ parent.children)
    (same : other.index = child.index) : other = child :=
  Node.expr.inj (List.inj_on_of_nodup_map distinct belowOther below (congrArg NodeId.expr same))

/-- The head of a chain needs no parentheses when it binds tightly, and nothing else in the chain
does. -/
theorem head_eq_false {head : Expr Mark} (belowHead : .expr head ∈ parent.children)
    (tight : 17 ≤ head.rank) :
    (decide (head.index = child.index) && decide (child.precedence < .call)) = false := by
  by_cases same : head.index = child.index
  · obtain rfl := eq_of_index_eq distinct below belowHead same
    rw [precedence_lt_eq_false .call tight, Bool.and_false]
  · rw [decide_eq_false same, Bool.false_and]

/-- In a parent other than a connective that fits, no child needs parentheses that it does not
have. -/
theorem childNeedsParens_eq_false (fits : parent.Fits) (other : parent.connective? = none) :
    parent.childNeedsParens child.index child.precedence = false := by
  cases parent with
  | binary mark op left right =>
    rcases (by simpa [children] using below : child = left ∨ child = right) with rfl | rfl
    · have ne : right.index ≠ child.index := by
        intro same
        simp [children, Node.id, same] at distinct
      rw [childNeedsParens, decide_eq_false ne, Bool.false_bne]
      exact BinaryOp.needsParens_eq_false fits.1
    · rw [childNeedsParens, decide_eq_true rfl, Bool.true_bne]
      exact BinaryOp.needsParens_eq_false fits.2
  | logical mark op left right => cases other
  | unary mark op argument =>
    obtain rfl : child = argument := by simpa [children] using below
    exact precedence_lt_eq_false .unary fits
  | update mark increment before argument =>
    obtain rfl : child = argument := by simpa [children] using below
    exact precedence_lt_eq_false .unary fits
  | member mark base property optional =>
    exact head_eq_false distinct below (List.mem_cons_self ..) fits
  | call mark callee arguments optional =>
    exact head_eq_false distinct below (List.mem_cons_self ..) fits
  | construct mark callee arguments =>
    exact head_eq_false distinct below (List.mem_cons_self ..) fits
  | conditional mark test consequent alternate =>
    rw [childNeedsParens]
    split
    · next same =>
      obtain rfl := eq_of_index_eq distinct below (List.mem_cons_self ..) same
      exact decide_eq_false (Nat.not_le.2 fits.1)
    · next ne =>
      refine precedence_lt_eq_false .assignment ?_
      rcases (by simpa [children] using below :
        child = test ∨ child = consequent ∨ child = alternate) with rfl | rfl | rfl
      · exact absurd rfl ne
      · exact fits.2.1
      · exact fits.2.2
  | assignment | array | object | function | sequence | spread =>
    exact precedence_lt_eq_false .assignment (fits child below)
  | identifier | literal | thisRef | hidden => rfl

end Children

/-- **Below an expression that fits, no expression needs parentheses that it does not have**, unless
connectives mix, and then it does. -/
theorem childNeedsParens_iff {parent child : Expr Mark} (fits : parent.Fits)
    (distinct : (parent.children.map Node.id).Nodup) (below : .expr child ∈ parent.children) :
    parent.childNeedsParens child.index child.precedence = true ↔ parent.Mixes child := by
  cases parent with
  | logical mark op left right =>
    rw [mixes_iff]
    rcases (by simpa [children] using below : child = left ∨ child = right) with rfl | rfl
    · have ne : right.index ≠ child.index := by
        intro same
        simp [children, Node.id, same] at distinct
      rw [childNeedsParens, decide_eq_false ne]
      exact Precedence.needsParens_iff fits.1
    · rw [childNeedsParens, decide_eq_true rfl]
      exact Precedence.needsParens_iff fits.2
  | _ =>
    rw [childNeedsParens_eq_false distinct below fits rfl]
    exact iff_of_false Bool.false_ne_true (not_mixes rfl)

end Expr

end TidyScript
