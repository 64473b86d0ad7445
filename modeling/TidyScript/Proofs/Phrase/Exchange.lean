import TidyScript.Edit.Basic
import TidyScript.Proofs.Phrase.Slice

/-!
# Trees with exchanged nodes

An edit that lies on a node of a plain expression exchanges the node for what the text of the edit
reads as by itself. Several edits exchange nodes one behind the other, and everything else stays.
-/

namespace TidyScript

open Grammar

namespace Expr

mutual

/-- The second tree has the form of the first with a node exchanged for every edit, in the order of
the edits: the node that the edit lies on for what its text reads as. -/
inductive Edited : List Edit → Expr Mark → Expr Mark → Prop where
  | kept {e e' : Expr Mark} (same : SameForm e e') : Edited [] e e'
  | exchanged {edit : Edit} {e e' new : Expr Mark} {program : Program} (place : edit.span = e.span)
      (read : Program.parseExpression edit.replacement = .ok (program, new))
      (same : SameForm e' new) : Edited [edit] e e'
  | unary (mark mark' : Mark) (op : UnaryOp) {edits : List Edit} {a a' : Expr Mark}
      (argument : Edited edits a a') : Edited edits (.unary mark op a) (.unary mark' op a')
  | linked (mark mark' : Mark) (op : Infix) {edits : List Edit} {a b a' b' : Expr Mark}
      (operands : EditedAll edits [a, b] [a', b']) :
      Edited edits (op.build a b mark) (op.build a' b' mark')
  | conditional (mark mark' : Mark) {edits : List Edit} {a b c a' b' c' : Expr Mark}
      (operands : EditedAll edits [a, b, c] [a', b', c']) :
      Edited edits (.conditional mark a b c) (.conditional mark' a' b' c')
  | sequence (mark mark' : Mark) {edits : List Edit} {items items' : List (Expr Mark)}
      (operands : EditedAll edits items items') :
      Edited edits (.sequence mark items) (.sequence mark' items')

/-- The edits exchange nodes of the trees one after the other. -/
inductive EditedAll : List Edit → List (Expr Mark) → List (Expr Mark) → Prop where
  | nil : EditedAll [] [] []
  | cons {edits edits' : List Edit} {a a' : Expr Mark} {others others' : List (Expr Mark)}
      (first : Edited edits a a') (rest : EditedAll edits' others others') :
      EditedAll (edits ++ edits') (a :: others) (a' :: others')

end

variable {edits : List Edit} {e e' : Expr Mark}

theorem Edited.single (edited : Edited edits e e') : EditedAll edits [e] [e'] := by
  simpa using EditedAll.cons edited .nil

theorem Edited.withMark (edited : Edited edits e e') {mark : Mark} (place : mark.span = e.span)
    (mark' : Mark) : Edited edits (e.withMark mark) (e'.withMark mark') := by
  cases edited with
  | kept same => exact .kept (same.withMark mark mark')
  | @exchanged _ _ _ new _ here read same =>
    refine .exchanged ?_ read (new.withMark_mark ▸ same.withMark mark' new.mark)
    rw [here, ← place, span, mark_withMark]
  | unary _ _ op argument => exact .unary mark mark' op argument
  | linked _ _ op operands =>
    cases op with
    | logical op => exact .linked mark mark' (.logical op) operands
    | binary op => exact .linked mark mark' (.binary op) operands
  | conditional _ _ operands => exact .conditional mark mark' operands
  | sequence _ _ operands => exact .sequence mark mark' operands

theorem EditedAll.joinRow {items items' : List (Expr Mark)} (edited : EditedAll edits items items')
    (mark mark' : Mark) : Edited edits (Phrase.joinRow mark items) (Phrase.joinRow mark' items') := by
  cases edited with
  | nil => exact .sequence mark mark' .nil
  | cons first rest =>
    cases rest with
    | nil => exact (List.append_nil _).symm ▸ first
    | cons second others => exact .sequence mark mark' (.cons first (.cons second others))

end Expr

namespace Phrase

variable {φ ψ : Phrase} {count offset : Nat}

theorem isRow_of_one_le_rank (single : 1 ≤ φ.rank) : φ.isRow = false := by
  cases φ with
  | comma => simp at single
  | _ => rfl

/-- An edit of a whole phrase exchanges its node. -/
theorem editedAll_of_written {edit : Edit} (single : 1 ≤ φ.rank)
    (place : edit.span = (φ.node count offset).span) (legible : ψ.Legible) (single' : 1 ≤ ψ.rank)
    (written : edit.replacement = String.ofList ψ.text) (count' offset' : Nat) :
    Expr.EditedAll [edit] (φ.items count offset) (ψ.items count' offset') := by
  rw [items_of_not_isRow _ _ (isRow_of_one_le_rank single),
    items_of_not_isRow _ _ (isRow_of_one_le_rank single')]
  obtain ⟨program, read, _⟩ := legible.parseExpression
  have same := legible.grouped.sameForm_slice (ψ.span offset') count' offset'
  rw [enclosed_span] at same
  exact (Expr.Edited.exchanged place (written ▸ read) same).single

end Phrase

end TidyScript
