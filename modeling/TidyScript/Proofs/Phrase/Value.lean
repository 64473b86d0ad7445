import TidyScript.Proofs.Phrase.Sentence
import TidyScript.Value.Evaluation

/-!
# The value of a phrase

The value of a phrase follows its grouping and does not look at places, and it is the value of
the node that reading the phrase gives. Two grouped phrases whose words mean the same, one by
one, have the same value: the words leave only one way to group them, since reading them has
only one result.
-/

namespace TidyScript

open Grammar

section Outcomes

variable {ε α β : Type}

@[simp] theorem toOption_ok (a : α) : (Except.ok a : Except ε α).toOption = some a := rfl

@[simp] theorem toOption_error (cause : ε) : (Except.error cause : Except ε α).toOption = none :=
  rfl

theorem toOption_bind (x : Except ε α) (f : α → Except ε β) :
    (x >>= f).toOption = x.toOption.bind fun a => (f a).toOption := by
  cases x <;> rfl

theorem toOption_orStuck (mark : α) (value : Option Value) :
    (Expr.orStuck mark value).toOption = value := by
  cases value <;> rfl

end Outcomes

/-- What evaluation gets stuck at has no part in the value. -/
theorem Program.toOption_eval (program : Program) (bindings : Bindings) (e : Expr Mark) :
    (program.eval bindings e).toOption = (e.eval bindings).toOption := by
  unfold eval
  split
  · next evaluated => rw [evaluated]; rfl
  · next evaluated => rw [evaluated]; rfl
  · next evaluated =>
    rw [evaluated]
    split <;> rfl

/-- The value of a name or a literal. -/
def Piece.value (bindings : Bindings) (p : Piece) : Option Value :=
  ((p.leaf ⟨0, ⟨0, 0⟩, ⟨0, 0⟩⟩).eval bindings).toOption

/-- Marks have no part in the value of a leaf. -/
theorem Piece.eval_leaf (bindings : Bindings) (p : Piece) (mark : Mark) :
    ((p.leaf mark).eval bindings).toOption = p.value bindings := by
  unfold value leaf atom?
  repeat' split
  all_goals simp [Expr.eval, toOption_orStuck]

namespace Phrase

/-- The value of a phrase, if it has one. -/
def value (bindings : Bindings) : Phrase → Option Value
  | atom word => word.value bindings
  | group _ inner _ => inner.value bindings
  | signed _ op operand => (operand.value bindings).bind op.result?
  | linked (.binary op) left _ right =>
    (left.value bindings).bind fun a => (right.value bindings).bind fun b => op.result? a b
  | linked (.logical op) left _ right =>
    (left.value bindings).bind fun a => if op.stopsAt a then some a else right.value bindings
  | choice test _ yes _ no =>
    (test.value bindings).bind fun v =>
      if v.isTruthy then yes.value bindings else no.value bindings
  | comma first _ rest => (first.value bindings).bind fun _ => rest.value bindings

theorem toOption_eval_withMark (bindings : Bindings) (e : Expr Mark) (mark : Mark) :
    ((e.withMark mark).eval bindings).toOption = (e.eval bindings).toOption := by
  cases e <;> simp [Expr.withMark, Expr.eval, toOption_bind, toOption_orStuck]

/-- The value of the node, and of the nodes between its commas, evaluated in a row. -/
theorem toOption_eval (bindings : Bindings) (φ : Phrase) (count offset : Nat) :
    ((φ.node count offset).eval bindings).toOption = φ.value bindings ∧
      ∀ last, (Expr.evalLast bindings last (φ.items count offset)).toOption =
        φ.value bindings := by
  have single : ∀ {ψ : Phrase} {count offset : Nat}, ψ.isRow = false →
      ((ψ.node count offset).eval bindings).toOption = ψ.value bindings →
        ((ψ.node count offset).eval bindings).toOption = ψ.value bindings ∧
          ∀ last, (Expr.evalLast bindings last (ψ.items count offset)).toOption =
            ψ.value bindings := by
    intro ψ count offset single node
    refine ⟨node, fun last => ?_⟩
    rw [items_of_not_isRow count offset single, Expr.evalLast, toOption_bind, node]
    simp [Expr.evalLast]
  induction φ generalizing count offset with
  | atom word => exact single rfl (by rw [node_atom, Piece.eval_leaf]; rfl)
  | group left inner right ih =>
    exact single rfl (by rw [node_group, toOption_eval_withMark, (ih _ _).1]; rfl)
  | signed sign op operand ih =>
    refine single rfl ?_
    rw [node_signed, Expr.eval, toOption_bind, (ih _ _).1]
    simp only [toOption_orStuck]
    rfl
  | linked op left sign right ihLeft ihRight =>
    refine single rfl ?_
    rw [node_linked]
    cases op with
    | binary op =>
      simp only [Infix.build, Expr.eval, toOption_bind, (ihLeft _ _).1, (ihRight _ _).1,
        toOption_orStuck]
      rfl
    | logical op =>
      simp only [Infix.build, Expr.eval, toOption_bind, (ihLeft _ _).1]
      refine Option.bind_congr fun a _ => ?_
      split
      · rfl
      · exact (ihRight _ _).1
  | choice test mark yes colon no ihTest ihYes ihNo =>
    refine single rfl ?_
    simp only [node_choice, Expr.eval, toOption_bind, (ihTest _ _).1]
    refine Option.bind_congr fun a _ => ?_
    split
    · exact (ihYes _ _).1
    · exact (ihNo _ _).1
  | comma first sign rest ihFirst ihRest =>
    have items : ∀ last, (Expr.evalLast bindings last
        ((comma first sign rest).items count offset)).toOption =
          (comma first sign rest).value bindings := by
      intro last
      rw [items_comma, Expr.evalLast, toOption_bind, (ihFirst _ _).1]
      exact Option.bind_congr fun a _ => (ihRest _ _).2 a
    refine ⟨?_, items⟩
    rw [node_comma, Expr.eval]
    exact items .undefined

/-- **The value of a phrase is the value of its node.** -/
theorem eval_node (bindings : Bindings) (φ : Phrase) (count offset : Nat) :
    ((φ.node count offset).eval bindings).toOption = φ.value bindings :=
  (toOption_eval bindings φ count offset).1

end Phrase

/-! ## Words that mean the same -/

/-- The words of the pieces mean the same. -/
def Piece.Same (p q : Piece) : Prop :=
  Token.same (p.token 0) (q.token 0) = true

namespace Piece.Same

variable {p q : Piece}

/-- Gaps do not count. -/
theorem of_eq (kind : p.kind = q.kind) (text : p.text = q.text) : p.Same q := by
  simp only [Piece.Same, Token.same, token, kind, text]
  cases q.kind <;> simp

theorem refl : p.Same p :=
  of_eq rfl rfl

/-- Words that mean the same denote one text or are written alike. -/
theorem cases (same : p.Same q) :
    (∃ value, p.kind = .string value ∧ q.kind = .string value) ∨
      p.kind = q.kind ∧ p.text = q.text := by
  unfold Piece.Same Token.same at same
  split at same
  · next x y first second =>
    obtain rfl := of_decide_eq_true same
    exact .inl ⟨x, first, second⟩
  · cases same
  · cases same
  · rw [Bool.and_eq_true, decide_eq_true_eq, decide_eq_true_eq] at same
    exact .inr ⟨same.1, by simpa [token] using congrArg String.toList same.2⟩

theorem isPunct_eq (same : p.Same q) (text : String) : p.isPunct text = q.isPunct text := by
  rcases same.cases with ⟨value, first, second⟩ | ⟨kind, letters⟩
  · simp [isPunct, token, Token.isPunct, first, second]
  · simp [isPunct, token, Token.isPunct, kind, letters]

theorem isOperand_eq (same : p.Same q) : p.isOperand = q.isOperand := by
  rcases same.cases with ⟨value, first, second⟩ | ⟨kind, letters⟩
  · simp [isOperand, token, Token.isOperand, first, second]
  · simp [isOperand, token, Token.isOperand, kind, letters]

theorem signOp?_eq (same : p.Same q) : p.signOp? = q.signOp? := by
  rcases same.cases with ⟨value, first, second⟩ | ⟨kind, letters⟩
  · simp [signOp?, token, Token.signOp?, first, second]
  · simp [signOp?, token, Token.signOp?, kind, letters]

theorem linkOp?_eq (same : p.Same q) : p.linkOp? = q.linkOp? := by
  rcases same.cases with ⟨value, first, second⟩ | ⟨kind, letters⟩
  · simp [linkOp?, token, Infix.ofToken?, first, second]
  · simp [linkOp?, token, Infix.ofToken?, kind, letters]

theorem leaf_eq (same : p.Same q) : p.leaf = q.leaf := by
  funext mark
  rcases same.cases with ⟨value, first, second⟩ | ⟨kind, letters⟩
  · simp [leaf, atom?, token, first, second]
  · simp [leaf, atom?, token, kind, letters]

theorem value_eq (same : p.Same q) (bindings : Bindings) :
    p.value bindings = q.value bindings := by
  rw [Piece.value, Piece.value, same.leaf_eq]

end Piece.Same

/-! ## Phrases that say the same -/

namespace Phrase

/-- The two phrases group words that mean the same in the same way. -/
inductive Same : Phrase → Phrase → Prop where
  | atom {word word' : Piece} (words : word.Same word') : Same (atom word) (atom word')
  | group {left right left' right' : Piece} {inner inner' : Phrase}
      (signs : left.Same left' ∧ right.Same right') (inside : Same inner inner') :
      Same (group left inner right) (group left' inner' right')
  | signed {sign sign' : Piece} {op : UnaryOp} {operand operand' : Phrase}
      (signs : sign.Same sign') (inside : Same operand operand') :
      Same (signed sign op operand) (signed sign' op operand')
  | linked {op : Infix} {left right left' right' : Phrase} {sign sign' : Piece}
      (signs : sign.Same sign') (first : Same left left') (second : Same right right') :
      Same (linked op left sign right) (linked op left' sign' right')
  | choice {test yes no test' yes' no' : Phrase} {mark colon mark' colon' : Piece}
      (signs : mark.Same mark' ∧ colon.Same colon') (first : Same test test')
      (second : Same yes yes') (third : Same no no') :
      Same (choice test mark yes colon no) (choice test' mark' yes' colon' no')
  | comma {front rest front' rest' : Phrase} {sign sign' : Piece} (signs : sign.Same sign')
      (first : Same front front') (second : Same rest rest') :
      Same (comma front sign rest) (comma front' sign' rest')

namespace Same

variable {φ ψ : Phrase}

theorem refl (φ : Phrase) : φ.Same φ := by
  induction φ with
  | atom word => exact .atom .refl
  | group left inner right ih => exact .group ⟨.refl, .refl⟩ ih
  | signed sign op operand ih => exact .signed .refl ih
  | linked op left sign right ihLeft ihRight => exact .linked .refl ihLeft ihRight
  | choice test mark yes colon no ihTest ihYes ihNo =>
    exact .choice ⟨.refl, .refl⟩ ihTest ihYes ihNo
  | comma first sign rest ihFirst ihRest => exact .comma .refl ihFirst ihRest

theorem strength_eq (same : φ.Same ψ) : ψ.strength = φ.strength := by
  cases same with
  | @linked op => cases op <;> rfl
  | _ => rfl

theorem rank_eq (same : φ.Same ψ) : ψ.rank = φ.rank := by
  rw [rank, rank, same.strength_eq]

theorem hold_eq (same : φ.Same ψ) : ψ.hold = φ.hold := by
  cases same <;> rfl

theorem value_eq (same : φ.Same ψ) (bindings : Bindings) :
    ψ.value bindings = φ.value bindings := by
  induction same with
  | atom words => exact (words.value_eq bindings).symm
  | group _ _ inner => exact inner
  | signed _ _ operand => rw [value, value, operand]
  | @linked op _ _ _ _ _ _ _ _ _ left right => cases op <;> simp only [value, left, right]
  | choice _ _ _ _ test yes no => simp only [value, test, yes, no]
  | comma _ _ _ front rest => simp only [value, front, rest]

/-- What is grouped stays so with other words that mean the same. -/
theorem grouped (same : φ.Same ψ) (grouped : φ.Grouped) : ψ.Grouped := by
  induction same with
  | atom words => exact words.isOperand_eq.symm.trans grouped
  | group signs _ inner =>
    obtain ⟨isLeft, inside, isRight⟩ := grouped
    exact ⟨signs.1.isPunct_eq _ ▸ isLeft, inner inside, signs.2.isPunct_eq _ ▸ isRight⟩
  | signed signs inside operand =>
    obtain ⟨⟨isSign, allowed⟩, groupedOperand, tight⟩ := grouped
    exact ⟨⟨signs.signOp?_eq ▸ isSign, allowed⟩, operand groupedOperand, by rwa [inside.rank_eq]⟩
  | linked signs first second left right =>
    obtain ⟨isSign, ⟨groupedLeft, holds⟩, groupedRight, tight⟩ := grouped
    exact ⟨signs.linkOp?_eq ▸ isSign, ⟨left groupedLeft, by rwa [first.hold_eq]⟩,
      right groupedRight, by rwa [second.rank_eq]⟩
  | choice signs first second third test yes no =>
    obtain ⟨⟨isMark, isColon⟩, ⟨groupedTest, tightTest⟩, ⟨groupedYes, tightYes⟩, groupedNo,
      tightNo⟩ := grouped
    exact ⟨⟨signs.1.isPunct_eq _ ▸ isMark, signs.2.isPunct_eq _ ▸ isColon⟩,
      ⟨test groupedTest, by rwa [first.rank_eq]⟩, ⟨yes groupedYes, by rwa [second.rank_eq]⟩,
      no groupedNo, by rwa [third.rank_eq]⟩
  | comma signs first _ front rest =>
    obtain ⟨isSign, ⟨groupedFirst, tight⟩, groupedRest⟩ := grouped
    exact ⟨signs.isPunct_eq _ ▸ isSign, ⟨front groupedFirst, by rwa [first.rank_eq]⟩,
      rest groupedRest⟩

end Same

/-- A row that corresponds to two rows joined is itself joined from two. -/
theorem forall₂_append {ps qs rs : List Piece} (same : List.Forall₂ Piece.Same (ps ++ qs) rs) :
    ∃ ps' qs', List.Forall₂ Piece.Same ps ps' ∧ List.Forall₂ Piece.Same qs qs' ∧
      rs = ps' ++ qs' := by
  induction ps generalizing rs with
  | nil => exact ⟨[], rs, .nil, same, rfl⟩
  | cons p ps ih =>
    obtain ⟨p', rs, one, more, rfl⟩ := List.forall₂_cons_left_iff.1 same
    obtain ⟨ps', qs', first, second, rfl⟩ := ih more
    exact ⟨p' :: ps', qs', .cons one first, second, rfl⟩

/-- Other words that mean the same can be grouped in the same way. -/
theorem exists_same (φ : Phrase) {qs : List Piece} (same : List.Forall₂ Piece.Same φ.pieces qs) :
    ∃ ψ : Phrase, ψ.pieces = qs ∧ φ.Same ψ := by
  induction φ generalizing qs with
  | atom word =>
    obtain ⟨q, _, words, none, rfl⟩ := List.forall₂_cons_left_iff.1 same
    obtain rfl := List.forall₂_nil_left_iff.1 none
    exact ⟨atom q, rfl, .atom words⟩
  | group left inner right ih =>
    obtain ⟨left', _, sameLeft, behind, rfl⟩ := List.forall₂_cons_left_iff.1 same
    obtain ⟨qs, rs, sameInner, others, rfl⟩ := forall₂_append behind
    obtain ⟨right', _, sameRight, none, rfl⟩ := List.forall₂_cons_left_iff.1 others
    obtain rfl := List.forall₂_nil_left_iff.1 none
    obtain ⟨inner', rfl, inside⟩ := ih sameInner
    exact ⟨group left' inner' right', rfl, .group ⟨sameLeft, sameRight⟩ inside⟩
  | signed sign op operand ih =>
    obtain ⟨sign', qs, signs, sameOperand, rfl⟩ := List.forall₂_cons_left_iff.1 same
    obtain ⟨operand', rfl, inside⟩ := ih sameOperand
    exact ⟨signed sign' op operand', rfl, .signed signs inside⟩
  | linked op left sign right ihLeft ihRight =>
    obtain ⟨qs, _, sameLeft, others, rfl⟩ := forall₂_append same
    obtain ⟨sign', rs, signs, sameRight, rfl⟩ := List.forall₂_cons_left_iff.1 others
    obtain ⟨left', rfl, first⟩ := ihLeft sameLeft
    obtain ⟨right', rfl, second⟩ := ihRight sameRight
    exact ⟨linked op left' sign' right', rfl, .linked signs first second⟩
  | choice test mark yes colon no ihTest ihYes ihNo =>
    obtain ⟨qs, _, sameTest, afterTest, rfl⟩ := forall₂_append same
    obtain ⟨mark', _, sameMark, afterMark, rfl⟩ := List.forall₂_cons_left_iff.1 afterTest
    obtain ⟨rs, _, sameYes, afterYes, rfl⟩ := forall₂_append afterMark
    obtain ⟨colon', ts, sameColon, sameNo, rfl⟩ := List.forall₂_cons_left_iff.1 afterYes
    obtain ⟨test', rfl, first⟩ := ihTest sameTest
    obtain ⟨yes', rfl, second⟩ := ihYes sameYes
    obtain ⟨no', rfl, third⟩ := ihNo sameNo
    exact ⟨choice test' mark' yes' colon' no', rfl,
      .choice ⟨sameMark, sameColon⟩ first second third⟩
  | comma front sign rest ihFront ihRest =>
    obtain ⟨qs, _, sameFront, others, rfl⟩ := forall₂_append same
    obtain ⟨sign', rs, signs, sameRest, rfl⟩ := List.forall₂_cons_left_iff.1 others
    obtain ⟨front', rfl, first⟩ := ihFront sameFront
    obtain ⟨rest', rfl, second⟩ := ihRest sameRest
    exact ⟨comma front' sign' rest', rfl, .comma signs first second⟩

/-- The words of a phrase leave only one way to group them. -/
theorem node_eq_of_pieces_eq {φ ψ : Phrase} (groupedφ : φ.Grouped) (groupedψ : ψ.Grouped)
    (calm : List.IsChain Piece.Calm φ.pieces) (same : φ.pieces = ψ.pieces) (count offset : Nat) :
    φ.node count offset = ψ.node count offset := by
  let state : State := ⟨Piece.tokens offset φ.pieces, ⟨.eof, "", ⟨0, 0⟩, false⟩, 0, false,
    Array.replicate count (.identifier ⟨0, ⟨0, 0⟩, ⟨0, 0⟩⟩ ""), #[]⟩
  have ahead : ∀ {χ : Phrase}, χ.pieces = φ.pieces → χ.Ahead offset [] state := by
    intro χ words
    refine ⟨?_, rfl, ⟨rfl, ?_, (Piece.isChain_tokens rfl offset).2 calm⟩, rfl⟩
    · rw [List.append_nil, words]
    · intro token mem
      obtain ⟨p, inside, place, rfl⟩ := Piece.mem_tokens mem
      exact (groupedφ.isPlain p inside).isStill place
  have ends : EndsRow state.stop := .of_eof rfl
  have size : state.exprs.size = count := Array.size_replicate
  have readφ := groupedφ.reads.whole _ (Nat.le_refl _) (ahead rfl) ends
  have readψ := groupedψ.reads.whole _ (Nat.le_refl _) (ahead same.symm) ends
  rw [same, readψ, size] at readφ
  exact (EStateM.Result.ok.inj readφ).1.symm

/-- **Phrases whose words mean the same, one by one, say the same.** One of them can be replaced
by a phrase that gives the same nodes and groups its words as the other one does. -/
theorem exists_same_of_forall₂ {φ ψ : Phrase} (grouped : φ.Grouped ∧ ψ.Grouped)
    (calm : List.IsChain Piece.Calm ψ.pieces)
    (same : List.Forall₂ Piece.Same φ.pieces ψ.pieces) :
    ∃ χ : Phrase, φ.Same χ ∧ ∀ count offset, χ.node count offset = ψ.node count offset := by
  obtain ⟨χ, words, same⟩ := φ.exists_same same
  exact ⟨χ, same, fun count offset =>
    (node_eq_of_pieces_eq grouped.2 (same.grouped grouped.1) calm words.symm count offset).symm⟩

theorem value_eq_of_forall₂ {φ ψ : Phrase} (grouped : φ.Grouped ∧ ψ.Grouped)
    (calm : List.IsChain Piece.Calm ψ.pieces)
    (same : List.Forall₂ Piece.Same φ.pieces ψ.pieces) (bindings : Bindings) :
    φ.value bindings = ψ.value bindings := by
  obtain ⟨χ, same, node⟩ := exists_same_of_forall₂ grouped calm same
  rw [← same.value_eq, ← eval_node bindings χ 0 0, node, eval_node]

end Phrase

end TidyScript
