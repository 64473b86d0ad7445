import TidyScript.Proofs.Grammar.Quiet
import TidyScript.Proofs.Token.Piece
import TidyScript.Proofs.Tree.Order

/-!
# Phrases

A phrase is a row of pieces together with the way in which they are grouped: operands of a
single word, groups in parentheses, operators in front of and between operands, conditionals
and commas. A phrase knows its pieces, the node that reading it gives, and the value of that
node, which does not depend on places.

A phrase is grouped when its words are what their places ask for and every operand binds at
least as tightly as the operator above it demands. Reading a row of plain words finds grouped
phrases only, and finds every one of them.
-/

namespace TidyScript

open Grammar

namespace Piece

/-- Is this the punctuator written `text`? -/
def isPunct (p : Piece) (text : String) : Bool :=
  (p.token 0).isPunct text

/-- The operator in front of an operand that a piece is. -/
def signOp? (p : Piece) : Option UnaryOp :=
  (p.token 0).signOp?

/-- The operator between two operands that a piece is. -/
def linkOp? (p : Piece) : Option Infix :=
  Infix.ofToken? false (p.token 0)

/-- Is the piece a name, or a literal that is evaluated? -/
def isOperand (p : Piece) : Bool :=
  (p.token 0).isOperand

/-- The node of a piece that is an operand. -/
def leaf (p : Piece) (mark : Mark) : Expr Mark :=
  (atom? (p.token 0)).getD .hidden mark

theorem isSome_atom? {p : Piece} (operand : p.isOperand = true) :
    (atom? (p.token 0)).isSome = true := by
  unfold isOperand Token.isOperand at operand
  unfold atom?
  split at operand
  · next kind => rw [kind]; rfl
  · next kind => rw [kind]; rfl
  · next kind => rw [kind]; rfl
  · next kind =>
    rw [kind]
    simp only [List.contains_iff_mem, List.mem_cons, List.not_mem_nil, or_false] at operand
    rcases operand with text | text | text <;> simp [text]
  · cases operand

theorem mark_leaf (p : Piece) (mark : Mark) : (p.leaf mark).mark = mark := by
  unfold leaf atom?
  repeat' split
  all_goals rfl

theorem descendants_leaf (p : Piece) (mark : Mark) : (p.leaf mark).descendants = [] := by
  unfold leaf atom?
  repeat' split
  all_goals simp [Expr.descendants]

end Piece

/-- How tightly an operator between operands binds. -/
def Grammar.Infix.precedence : Infix → Precedence
  | .logical op => op.precedence
  | .binary op => op.precedence

theorem Grammar.Infix.mark_build (op : Infix) (left right : Expr Mark) (mark : Mark) :
    (op.build left right mark).mark = mark := by
  cases op <;> rfl

theorem Grammar.Infix.descendants_build (op : Infix) (left right : Expr Mark) (mark : Mark) :
    (op.build left right mark).descendants =
      left.descendants ++ left :: (right.descendants ++ [right]) := by
  cases op <;> simp only [build, Expr.descendants]

/-- How the pieces of an expression are grouped. -/
inductive Phrase where
  | atom (word : Piece)
  | group (left : Piece) (inner : Phrase) (right : Piece)
  | signed (sign : Piece) (op : UnaryOp) (operand : Phrase)
  | linked (op : Infix) (left : Phrase) (sign : Piece) (right : Phrase)
  | choice (test : Phrase) (mark : Piece) (yes : Phrase) (colon : Piece) (no : Phrase)
  | comma (first : Phrase) (sign : Piece) (rest : Phrase)

namespace Phrase

/-! ## The pieces of a phrase -/

/-- The pieces in their order. -/
def pieces : Phrase → List Piece
  | atom word => [word]
  | group left inner right => left :: (inner.pieces ++ [right])
  | signed sign _ operand => sign :: operand.pieces
  | linked _ left sign right => left.pieces ++ sign :: right.pieces
  | choice test mark yes colon no =>
    test.pieces ++ mark :: (yes.pieces ++ colon :: no.pieces)
  | comma first sign rest => first.pieces ++ sign :: rest.pieces

/-- The first piece. -/
def first : Phrase → Piece
  | atom word => word
  | group left _ _ => left
  | signed sign _ _ => sign
  | linked _ left _ _ => left.first
  | choice test _ _ _ _ => test.first
  | comma first _ _ => first.first

/-- The last piece. -/
def last : Phrase → Piece
  | atom word => word
  | group _ _ right => right
  | signed _ _ operand => operand.last
  | linked _ _ _ right => right.last
  | choice _ _ _ _ no => no.last
  | comma _ _ rest => rest.last

/-- The number of bytes. -/
def bytes (φ : Phrase) : Nat :=
  Piece.width φ.pieces

/-- The place of a phrase that starts at a byte offset, without the gap in front of it. -/
def span (offset : Nat) (φ : Phrase) : Span :=
  ⟨offset + Text.byteLength φ.first.gap, offset + φ.bytes⟩

/-! ## Strength -/

/-- How tightly the phrase binds. -/
def strength : Phrase → Precedence
  | atom _ => .primary
  | group _ _ _ => .primary
  | signed _ _ _ => .unary
  | linked (.logical op) _ _ _ => op.precedence
  | linked (.binary op) _ _ _ => op.precedence
  | choice _ _ _ _ _ => .conditional
  | comma _ _ _ => .sequence

/-- The place of the phrase's strength on the ladder. -/
def rank (φ : Phrase) : Nat :=
  φ.strength.rank

/-- Operators behind the phrase take it as their left operand when their power is inside
this bound, and take a part of it otherwise. -/
def hold : Phrase → Nat
  | linked op _ _ _ => op.rightLeast
  | choice _ _ _ _ _ => 0
  | comma _ _ _ => 0
  | _ => 13

/-- The words are what their places ask for, and no operand binds too loosely. -/
def Grouped : Phrase → Prop
  | atom word => word.isOperand
  | group left inner right => left.isPunct "(" ∧ inner.Grouped ∧ right.isPunct ")"
  | signed sign op operand =>
    (sign.signOp? = some op ∧ op ≠ .delete ∧ op ≠ .await) ∧ operand.Grouped ∧ 15 ≤ operand.rank
  | linked op left sign right =>
    sign.linkOp? = some op ∧ (left.Grouped ∧ op.power < left.hold) ∧
      right.Grouped ∧ op.rightLeast + 2 ≤ right.rank
  | choice test mark yes colon no =>
    (mark.isPunct "?" ∧ colon.isPunct ":") ∧ (test.Grouped ∧ 3 ≤ test.rank) ∧
      (yes.Grouped ∧ 1 ≤ yes.rank) ∧ no.Grouped ∧ 1 ≤ no.rank
  | comma first sign rest =>
    sign.isPunct "," ∧ (first.Grouped ∧ 1 ≤ first.rank) ∧ rest.Grouped

variable {word left right sign query colon : Piece} {inner operand test yes no first rest : Phrase}
  {op : Infix}

section Strength

theorem rank_precedence (op : Infix) : op.precedence.rank = op.power + 2 := by
  rcases op with op | op <;> cases op <;> rfl

theorem power_le (op : Infix) : op.power ≤ 12 := by
  rcases op with op | op <;> cases op <;> decide

theorem one_le_power (op : Infix) : 1 ≤ op.power := by
  rcases op with op | op <;> cases op <;> decide

theorem power_le_rightLeast (op : Infix) : op.power ≤ op.rightLeast := by
  unfold Infix.rightLeast
  split <;> omega

theorem rightLeast_le (op : Infix) : op.rightLeast ≤ op.power + 1 := by
  unfold Infix.rightLeast
  split <;> omega

@[simp] theorem rank_atom : (atom word).rank = 18 := rfl

@[simp] theorem rank_group : (group left inner right).rank = 18 := rfl

@[simp] theorem rank_signed (op : UnaryOp) : (signed sign op operand).rank = 15 := rfl

@[simp] theorem rank_choice : (choice test query yes colon no).rank = 2 := rfl

@[simp] theorem rank_comma : (comma first sign rest).rank = 0 := rfl

theorem rank_linked (left right : Phrase) : (linked op left sign right).rank = op.power + 2 := by
  rcases op with op | op <;> cases op <;> rfl

/-- An operator that takes the whole phrase as its left operand is not stronger. -/
theorem power_add_two_le_rank {φ : Phrase} (holds : op.power < φ.hold) :
    op.power + 2 ≤ φ.rank := by
  cases φ with
  | linked other left sign right =>
    have := rightLeast_le other
    have holds : op.power < other.rightLeast := holds
    rw [rank_linked]
    omega
  | choice => exact absurd holds (Nat.not_lt_zero _)
  | comma => exact absurd holds (Nat.not_lt_zero _)
  | _ =>
    have := power_le op
    simp only [rank, strength, Precedence.rank]
    omega

/-- Behind a phrase that binds at least as tightly as `least`, an operator below `least` takes
the whole phrase. -/
theorem lt_hold_of_add_two_le_rank {least : Nat} {φ : Phrase} (weak : op.power < least)
    (tight : least + 2 ≤ φ.rank) : op.power < φ.hold := by
  have := one_le_power op
  cases φ with
  | linked other left sign right =>
    have := power_le_rightLeast other
    rw [rank_linked] at tight
    show op.power < other.rightLeast
    omega
  | choice =>
    rw [rank_choice] at tight
    omega
  | comma =>
    rw [rank_comma] at tight
    omega
  | _ =>
    have := power_le op
    show op.power < 13
    omega

theorem rightLeast_le_thirteen (op : Infix) : op.rightLeast ≤ 13 :=
  Nat.le_trans (rightLeast_le op) (Nat.succ_le_succ (power_le op))

theorem hold_of_fifteen_le_rank {φ : Phrase} (tight : 15 ≤ φ.rank) : φ.hold = 13 := by
  cases φ with
  | linked op left sign right =>
    have := power_le op
    rw [rank_linked] at tight
    omega
  | choice => simp at tight
  | comma => simp at tight
  | _ => rfl

end Strength

/-- A phrase starts with an operand, a parenthesis or an operator in front of an operand. -/
theorem Grouped.first_cases {φ : Phrase} (grouped : φ.Grouped) :
    φ.first.isOperand = true ∨ φ.first.isPunct "(" = true ∨
      ∃ op, φ.first.signOp? = some op ∧ op ≠ .delete ∧ op ≠ .await := by
  induction φ with
  | atom word => exact .inl grouped
  | group left inner right => exact .inr (.inl grouped.1)
  | signed sign op operand => exact .inr (.inr ⟨op, grouped.1⟩)
  | linked op left sign right ih _ => exact ih grouped.2.1.1
  | choice test mark yes colon no ih _ _ => exact ih grouped.2.1.1
  | comma first sign rest ih _ => exact ih grouped.2.1.1

/-! ## The node of a phrase -/

/-- Is it a row of phrases with commas between them? -/
def isRow : Phrase → Bool
  | comma _ _ _ => true
  | _ => false

/-- The number of nodes below the node of the phrase. -/
def inside : Phrase → Nat
  | atom _ => 0
  | group _ inner _ => inner.inside
  | signed _ _ operand => operand.inside + 1
  | linked _ left _ right => left.inside + 1 + (right.inside + 1)
  | choice test _ yes _ no => test.inside + 1 + (yes.inside + 1) + (no.inside + 1)
  | comma first _ rest => first.inside + 1 + (if rest.isRow then rest.inside else rest.inside + 1)

/-- The mark of the phrase's node, when `count` nodes are complete in front of it. -/
def mark (count offset : Nat) (φ : Phrase) : Mark :=
  ⟨count + φ.inside, φ.span offset, φ.span offset⟩

/-- A row of several nodes becomes a sequence. -/
def joinRow (mark : Mark) : List (Expr Mark) → Expr Mark
  | [item] => item
  | items => .sequence mark items

/-- The nodes between the commas of a phrase. -/
def items (count offset : Nat) : Phrase → List (Expr Mark)
  | atom word => [word.leaf ((atom word).mark count offset)]
  | group left inner right =>
    let node := joinRow (inner.mark count (offset + left.bytes))
      (inner.items count (offset + left.bytes))
    [node.withMark { node.mark with outer := (group left inner right).span offset }]
  | signed sign op operand =>
    let node := joinRow (operand.mark count (offset + sign.bytes))
      (operand.items count (offset + sign.bytes))
    [.unary ((signed sign op operand).mark count offset) op node]
  | linked op left sign right =>
    let count' := count + (left.inside + 1)
    let offset' := offset + left.bytes + sign.bytes
    [op.build (joinRow (left.mark count offset) (left.items count offset))
      (joinRow (right.mark count' offset') (right.items count' offset'))
      ((linked op left sign right).mark count offset)]
  | choice test mark yes colon no =>
    let count₁ := count + (test.inside + 1)
    let offset₁ := offset + test.bytes + mark.bytes
    let count₂ := count₁ + (yes.inside + 1)
    let offset₂ := offset₁ + yes.bytes + colon.bytes
    [.conditional ((choice test mark yes colon no).mark count offset)
      (joinRow (test.mark count offset) (test.items count offset))
      (joinRow (yes.mark count₁ offset₁) (yes.items count₁ offset₁))
      (joinRow (no.mark count₂ offset₂) (no.items count₂ offset₂))]
  | comma first sign rest =>
    joinRow (first.mark count offset) (first.items count offset) ::
      rest.items (count + (first.inside + 1)) (offset + first.bytes + sign.bytes)

/-- The node that reading the phrase gives. -/
def node (count offset : Nat) (φ : Phrase) : Expr Mark :=
  joinRow (φ.mark count offset) (φ.items count offset)

section Pieces

attribute [local simp] pieces

theorem pieces_eq_cons (φ : Phrase) : ∃ others, φ.pieces = φ.first :: others := by
  induction φ with
  | atom word => exact ⟨[], rfl⟩
  | group left inner right => exact ⟨_, rfl⟩
  | signed sign op operand => exact ⟨_, rfl⟩
  | linked op left sign right ih _ =>
    obtain ⟨others, parts⟩ := ih
    exact ⟨_, by rw [pieces, parts]; rfl⟩
  | choice test mark yes colon no ih _ _ =>
    obtain ⟨others, parts⟩ := ih
    exact ⟨_, by rw [pieces, parts]; rfl⟩
  | comma first sign rest ih _ =>
    obtain ⟨others, parts⟩ := ih
    exact ⟨_, by rw [pieces, parts]; rfl⟩

theorem pieces_eq_concat (φ : Phrase) : ∃ others, φ.pieces = others ++ [φ.last] := by
  induction φ with
  | atom word => exact ⟨[], rfl⟩
  | group left inner right => exact ⟨left :: inner.pieces, rfl⟩
  | signed sign op operand ih =>
    obtain ⟨others, parts⟩ := ih
    exact ⟨sign :: others, by rw [pieces, parts]; rfl⟩
  | linked op left sign right _ ih =>
    obtain ⟨others, parts⟩ := ih
    exact ⟨left.pieces ++ sign :: others, by simp [last, parts]⟩
  | choice test mark yes colon no _ _ ih =>
    obtain ⟨others, parts⟩ := ih
    exact ⟨test.pieces ++ mark :: (yes.pieces ++ colon :: others), by simp [last, parts]⟩
  | comma first sign rest _ ih =>
    obtain ⟨others, parts⟩ := ih
    exact ⟨first.pieces ++ sign :: others, by simp [last, parts]⟩

theorem length_pieces_pos (φ : Phrase) : 0 < φ.pieces.length := by
  obtain ⟨others, parts⟩ := φ.pieces_eq_cons
  simp [parts]

theorem bytes_atom : (atom word).bytes = word.bytes := by
  simp [bytes]

theorem bytes_group : (group left inner right).bytes = left.bytes + inner.bytes + right.bytes := by
  simp [bytes, Nat.add_assoc]

theorem bytes_signed (op : UnaryOp) :
    (signed sign op operand).bytes = sign.bytes + operand.bytes := by
  simp [bytes]

theorem bytes_linked (left right : Phrase) :
    (linked op left sign right).bytes = left.bytes + sign.bytes + right.bytes := by
  simp [bytes, Nat.add_assoc]

theorem bytes_choice : (choice test query yes colon no).bytes =
      test.bytes + query.bytes + yes.bytes + colon.bytes + no.bytes := by
  simp [bytes, Nat.add_assoc]

theorem bytes_comma : (comma first sign rest).bytes = first.bytes + sign.bytes + rest.bytes := by
  simp [bytes, Nat.add_assoc]

end Pieces

/-! ## Nodes of the several kinds of phrase -/

section Nodes

variable (count offset : Nat)

theorem node_atom : (atom word).node count offset = word.leaf ((atom word).mark count offset) := rfl

theorem node_group : (group left inner right).node count offset =
      (inner.node count (offset + left.bytes)).withMark
        { (inner.node count (offset + left.bytes)).mark with
          outer := (group left inner right).span offset } := rfl

theorem node_signed (op : UnaryOp) : (signed sign op operand).node count offset =
      .unary ((signed sign op operand).mark count offset) op
        (operand.node count (offset + sign.bytes)) := rfl

theorem node_linked (left right : Phrase) : (linked op left sign right).node count offset =
      op.build (left.node count offset)
        (right.node (count + (left.inside + 1)) (offset + left.bytes + sign.bytes))
        ((linked op left sign right).mark count offset) := rfl

theorem node_choice : (choice test query yes colon no).node count offset =
      .conditional ((choice test query yes colon no).mark count offset) (test.node count offset)
        (yes.node (count + (test.inside + 1)) (offset + test.bytes + query.bytes))
        (no.node (count + (test.inside + 1) + (yes.inside + 1))
          (offset + test.bytes + query.bytes + yes.bytes + colon.bytes)) := rfl

theorem items_comma : (comma first sign rest).items count offset =
      first.node count offset ::
        rest.items (count + (first.inside + 1)) (offset + first.bytes + sign.bytes) := rfl

theorem items_of_not_isRow {φ : Phrase} (single : φ.isRow = false) :
    φ.items count offset = [φ.node count offset] := by
  cases φ <;> first | rfl | cases single

theorem items_ne_nil (φ : Phrase) : φ.items count offset ≠ [] := by
  cases φ <;> simp [items]

theorem node_comma : (comma first sign rest).node count offset =
      .sequence ((comma first sign rest).mark count offset)
        ((comma first sign rest).items count offset) := by
  have some := rest.items_ne_nil (count + (first.inside + 1)) (offset + first.bytes + sign.bytes)
  rw [node, items_comma]
  cases h : rest.items (count + (first.inside + 1)) (offset + first.bytes + sign.bytes) with
  | nil => exact absurd h some
  | cons item others => rfl

theorem outer_node (φ : Phrase) : (φ.node count offset).outer = φ.span offset := by
  cases φ with
  | atom word => rw [node_atom, Expr.outer, Piece.mark_leaf]; rfl
  | group left inner right => rw [node_group, Expr.outer, Expr.mark_withMark]
  | signed sign op operand => rfl
  | linked op left sign right => rw [node_linked, Expr.outer, Infix.mark_build]; rfl
  | choice test mark yes colon no => rfl
  | comma first sign rest => rw [node_comma]; rfl

theorem index_node (φ : Phrase) : (φ.node count offset).index = count + φ.inside := by
  induction φ generalizing offset with
  | atom word => rw [node_atom, Expr.index, Piece.mark_leaf]; rfl
  | group left inner right ih =>
    rw [node_group, Expr.index, Expr.mark_withMark]
    exact ih (offset + left.bytes)
  | signed sign op operand => rfl
  | linked op left sign right => rw [node_linked, Expr.index, Infix.mark_build]; rfl
  | choice test mark yes colon no => rfl
  | comma first sign rest => rw [node_comma]; rfl

/-- All nodes of the phrase in the order of their completion. -/
def nodes (φ : Phrase) : List (Expr Mark) :=
  (φ.node count offset).descendants ++ [φ.node count offset]

theorem completed_items_of_isRow {φ : Phrase} (row : φ.isRow = true) :
    Expr.completed (φ.items count offset) = (φ.node count offset).descendants := by
  cases φ with
  | comma first sign rest => rw [node_comma, Expr.descendants]
  | _ => cases row

theorem completed_items_of_not_isRow {φ : Phrase} (single : φ.isRow = false) :
    Expr.completed (φ.items count offset) = φ.nodes count offset := by
  rw [items_of_not_isRow count offset single, Expr.completed, Expr.completed, nodes]

theorem length_descendants_node (φ : Phrase) :
    (φ.node count offset).descendants.length = φ.inside := by
  induction φ generalizing count offset with
  | atom word => rw [node_atom, Piece.descendants_leaf]; rfl
  | group left inner right ih => rw [node_group, Expr.descendants_withMark, ih]; rfl
  | signed sign op operand ih => simp [node_signed, Expr.descendants, ih, inside]
  | linked op left sign right ihLeft ihRight =>
    simp only [node_linked, Infix.descendants_build, List.length_append, List.length_cons,
      List.length_nil, ihLeft, ihRight, inside]
    omega
  | choice test mark yes colon no ihTest ihYes ihNo =>
    simp only [node_choice, Expr.descendants, List.length_append, List.length_cons,
      List.length_nil, ihTest, ihYes, ihNo, inside]
    omega
  | comma first sign rest ihFirst ihRest =>
    rw [node_comma, Expr.descendants, items_comma, Expr.completed, List.length_append,
      List.length_cons, ihFirst, inside]
    cases row : rest.isRow with
    | true =>
      rw [completed_items_of_isRow _ _ row, ihRest, if_pos rfl]
      omega
    | false =>
      rw [completed_items_of_not_isRow _ _ row, nodes, List.length_append, ihRest,
        if_neg (by simp), List.length_singleton]
      omega

theorem length_nodes (φ : Phrase) : (φ.nodes count offset).length = φ.inside + 1 := by
  rw [nodes, List.length_append, length_descendants_node, List.length_singleton]

theorem descendants_group : ((group left inner right).node count offset).descendants =
      (inner.node count (offset + left.bytes)).descendants := by
  rw [node_group, Expr.descendants_withMark]

theorem descendants_signed (op : UnaryOp) :
    ((signed sign op operand).node count offset).descendants =
      operand.nodes count (offset + sign.bytes) := by
  rw [node_signed, Expr.descendants, nodes]

theorem descendants_linked (left right : Phrase) :
    ((linked op left sign right).node count offset).descendants =
      left.nodes count offset ++
        right.nodes (count + (left.inside + 1)) (offset + left.bytes + sign.bytes) := by
  rw [node_linked, Infix.descendants_build]
  simp [nodes]

theorem descendants_choice : ((choice test query yes colon no).node count offset).descendants =
      test.nodes count offset ++
        (yes.nodes (count + (test.inside + 1)) (offset + test.bytes + query.bytes) ++
          no.nodes (count + (test.inside + 1) + (yes.inside + 1))
            (offset + test.bytes + query.bytes + yes.bytes + colon.bytes)) := by
  rw [node_choice, Expr.descendants]
  simp [nodes]

theorem descendants_comma : ((comma first sign rest).node count offset).descendants =
      first.nodes count offset ++
        Expr.completed (rest.items (count + (first.inside + 1))
          (offset + first.bytes + sign.bytes)) := by
  rw [node_comma, Expr.descendants, items_comma, Expr.completed]
  simp [nodes]

theorem mem_nodes_of_mem_completed {φ : Phrase} {e : Expr Mark}
    (mem : e ∈ Expr.completed (φ.items count offset)) : e ∈ φ.nodes count offset := by
  cases row : φ.isRow with
  | true =>
    rw [completed_items_of_isRow _ _ row] at mem
    exact List.mem_append_left _ mem
  | false => rwa [completed_items_of_not_isRow _ _ row] at mem

theorem mem_completed_of_mem_descendants {φ : Phrase} {e : Expr Mark}
    (mem : e ∈ (φ.node count offset).descendants) :
    e ∈ Expr.completed (φ.items count offset) := by
  cases row : φ.isRow with
  | true => rwa [completed_items_of_isRow _ _ row]
  | false =>
    rw [completed_items_of_not_isRow _ _ row]
    exact List.mem_append_left _ mem

end Nodes

end Phrase

end TidyScript
