import TidyScript.Proofs.Command.Check
import TidyScript.Proofs.Phrase.Negation
import TidyScript.Proofs.Phrase.Slice
import TidyScript.Proofs.Rule.Rounds

/-!
# Texts that stand for expressions

A shortening and a negation are given as text with the strength by which the text binds. Both are
texts of legible phrases, so each is read as an expression that binds with this strength and
evaluates to the value of the phrase. The shortening of a plain expression has the value of the
expression. Its negation is true exactly where the expression is false, if all comparisons by
order have an answer. Plain expressions that read the same stand for each other.
-/

namespace TidyScript

open Grammar
open Expr (SameForm)

namespace Phrase

/-- **The text of a legible phrase is read as an expression of its strength and value.** -/
theorem Legible.reread {φ : Phrase} (legible : φ.Legible) : ∃ program root,
    Program.parseExpression (String.ofList φ.text) = .ok (program, root) ∧
      root.precedence = φ.strength ∧ ∀ bindings,
        (program.eval bindings root).toOption = φ.value bindings ∧
          ∀ cause, program.eval bindings root ≠ .error (.fault cause) := by
  obtain ⟨program, read, isRead⟩ := legible.parseExpression
  refine ⟨program, _, read, ?_, fun bindings => ?_⟩
  · rw [← φ.strength_led []]
    exact legible.grouped.led.precedence_node 0 0
  · rw [← value_led []]
    exact Sentence.toOption_eval legible.sound_slice isRead bindings

theorem toOption_eval_enclosed (φ : Phrase) (outer : Span) (count offset : Nat) (program : Program)
    (bindings : Bindings) :
    (program.eval bindings (φ.enclosed outer count offset)).toOption = φ.value bindings := by
  rw [Program.toOption_eval, enclosed, toOption_eval_withMark, eval_node]

end Phrase

namespace Program

/-- **Plain expressions of one program that read the same are the same.** Their trees have the same
form, and for all values of the names they have the same value or both have none. -/
theorem sameForm_of_sameExpr {source : String} {program : Program} {e e' : Expr Mark}
    (read : parse source = .ok program ∨ ∃ root, parseExpression source = .ok (program, root))
    (mem : e ∈ program.exprs ∧ e' ∈ program.exprs)
    (plain : program.isPlain e = true ∧ program.isPlain e' = true)
    (same : program.sameExpr e e' = true) :
    SameForm e e' ∧
      ∀ bindings, SameOutcome (program.eval bindings e) (program.eval bindings e') := by
  have seated := seated_of_read read
  have faultless := seated.eval_ne_fault (seated.exprs e mem.1)
  have faultless' := seated.eval_ne_fault (seated.exprs e' mem.2)
  obtain ⟨row, spells, spelled⟩ := exists_stands read
  obtain ⟨φ, offset, count, outer, ⟨stands, bare⟩, rfl⟩ := spelled e mem.1 plain.1
  obtain ⟨ψ, offset', count', outer', ⟨stands', bare'⟩, rfl⟩ := spelled e' mem.2 plain.2
  have grouped := And.intro stands.grouped stands'.grouped
  have calm := stands'.neat.legible.chain.imp fun _ _ meets => meets.calm
  rw [sameExpr, Phrase.span_enclosed, Phrase.span_enclosed, Phrase.span_node_of_not_isGroup bare,
    Phrase.span_node_of_not_isGroup bare', stands.isAt.tokensIn_eq spells,
    stands'.isAt.tokensIn_eq spells] at same
  have words := Piece.forall₂_of_sameRow same
  constructor
  · obtain ⟨χ, same, node⟩ := Phrase.exists_same_of_forall₂ grouped calm words
    rw [Phrase.enclosed, Phrase.enclosed, ← node]
    exact (same.sameForm grouped.1).withMark _ _
  · intro bindings
    refine .of_toOption ?_ (faultless bindings) (faultless' bindings)
    rw [Phrase.toOption_eval_enclosed, Phrase.toOption_eval_enclosed]
    exact Phrase.value_eq_of_forall₂ grouped calm words bindings

/-- A string in other quotes, other gaps and other parentheses, in the two branches of a
conditional. -/
theorem sameForm_of_sameExpr_branches : ∃ program e e',
    parse "x ? -a in\n(b, 'c') ? 1 : 0 : ((-a in (b, \"c\") ? 1:0))" = .ok program ∧
      ((e ∈ program.exprs ∧ e' ∈ program.exprs) ∧
        program.isPlain e = true ∧ program.isPlain e' = true) ∧
      (e.isParenthesized = false ∧ e'.isParenthesized = true) ∧ program.sameExpr e e' = true ∧
        SameForm e e' ∧
          ∀ bindings, SameOutcome (program.eval bindings e) (program.eval bindings e') := by
  have holds : holdsPlain "x ? -a in\n(b, 'c') ? 1 : 0 : ((-a in (b, \"c\") ? 1:0))"
      (fun program e => program.exprs.any fun e' => program.isPlain e' && (program.sameExpr e e' &&
        (!e.isParenthesized && e'.isParenthesized))) = true := by decide +kernel
  obtain ⟨program, e, read, ⟨mem, plain⟩, found⟩ := exists_of_holdsPlain holds
  obtain ⟨e', mem', found⟩ := Array.any_eq_true'.1 found
  simp only [Bool.and_eq_true, Bool.not_eq_true'] at found
  obtain ⟨plain', same, parens⟩ := found
  exact ⟨program, e, e', read, ⟨⟨mem, mem'⟩, plain, plain'⟩, parens, same,
    sameForm_of_sameExpr (.inl read) ⟨mem, mem'⟩ ⟨plain, plain'⟩ same⟩

/-- **A shortening has the strength that is given with it and the value of the expression**, for all
values of the names but `undefined`, which keeps its own. -/
theorem sameOutcome_shorten? {source : String} {program : Program} {e : Expr Mark}
    (read : parse source = .ok program ∨ ∃ root, parseExpression source = .ok (program, root))
    (mem : e ∈ program.exprs) (plain : program.isPlain e = true) :
    ∃ result, program.shorten? e = .ok result ∧ ∀ shortening ∈ result, ∃ program' root,
      parseExpression shortening.replacement.text = .ok (program', root) ∧
        root.precedence = shortening.replacement.precedence ∧
          ∀ bindings : Bindings, bindings "undefined" = none →
            SameOutcome (program.eval bindings e) (program'.eval bindings root) := by
  have faultless := (seated_of_read read).eval_ne_fault ((seated_of_read read).exprs e mem)
  obtain ⟨row, spells, spelled⟩ := exists_stands read
  obtain ⟨φ, offset, count, outer, ⟨stands, bare⟩, rfl⟩ := spelled e mem plain
  obtain ⟨result, made, shorter⟩ := stands.shortens spells outer count
  refine ⟨result, made, fun shortening found => ?_⟩
  obtain ⟨ψ, ⟨neat, _⟩, replacement, _, value⟩ := shorter shortening found
  obtain ⟨program', root, again, strength, evaluates⟩ := neat.legible.reread
  rw [replacement]
  refine ⟨program', root, again, strength, fun bindings free => ?_⟩
  refine .of_toOption ?_ (faultless bindings) (evaluates bindings).2
  rw [(evaluates bindings).1, value bindings free, Phrase.toOption_eval_enclosed]

/-- Two conditionals with opposite tests, in the body of a function. -/
theorem sameOutcome_shorten?_conditionals : ∃ program e,
    parse "go(() => (q === 1 ? a : null) || (!(q === 1) ? (b, c) : null));" = .ok program ∧
      (e ∈ program.exprs ∧ program.isPlain e = true) ∧
        program.shorten? e =
          .ok (some ⟨.ternaryFold, ⟨"q === 1 ? (a || null) : (b, c)", .conditional⟩⟩) ∧
          ∃ result, program.shorten? e = .ok result ∧ ∀ shortening ∈ result, ∃ program' root,
            parseExpression shortening.replacement.text = .ok (program', root) ∧
              root.precedence = shortening.replacement.precedence ∧
                ∀ bindings : Bindings, bindings "undefined" = none →
                  SameOutcome (program.eval bindings e) (program'.eval bindings root) := by
  have holds : holdsPlain "go(() => (q === 1 ? a : null) || (!(q === 1) ? (b, c) : null));"
      (fun program e => (program.shorten? e).toOption =
        some (some ⟨.ternaryFold, ⟨"q === 1 ? (a || null) : (b, c)", .conditional⟩⟩)) = true := by
    decide +kernel
  obtain ⟨program, e, read, ⟨mem, plain⟩, shortens⟩ := exists_of_holdsPlain holds
  exact ⟨program, e, read, ⟨mem, plain⟩, eq_ok_of_toOption (of_decide_eq_true shortens),
    sameOutcome_shorten? (.inl read) mem plain⟩

end Program

/-! ## Negations -/

/-- Does the operator compare by order? -/
def BinaryOp.isOrder : BinaryOp → Bool
  | less | greater | lessEqual | greaterEqual => true
  | _ => false

/-- Whether the order has an answer does not depend on which side is the left one. -/
theorem Value.lessThan?_eq_none_comm (a b : Value) :
    a.lessThan? b = none ↔ b.lessThan? a = none := by
  cases a <;> cases b <;> simp [lessThan?, or_comm]

/-- The second outcome is a value where the first is one, and it is true where that is false. -/
def Flips (outcome opposite : Option Value) : Prop :=
  ∀ v, outcome = some v → ∃ w, opposite = some w ∧ w.isTruthy = !v.isTruthy

/-- Where the order has an answer, the complement of a comparison has the other result. -/
theorem BinaryOp.flips_complement? {op other : BinaryOp} {a b : Value}
    (found : op.complement? = some other) (answers : op.isOrder = true → a.lessThan? b ≠ none) :
    Flips (op.result? a b) (other.result? a b) := by
  have forward : op.isOrder = true → ∃ c, a.lessThan? b = some c := fun order =>
    Option.ne_none_iff_exists'.1 (answers order)
  have backward : op.isOrder = true → ∃ c, b.lessThan? a = some c := fun order =>
    Option.ne_none_iff_exists'.1 (mt (b.lessThan?_eq_none_comm a).1 (answers order))
  intro v result
  cases op <;> cases found <;> cases result <;> refine ⟨_, rfl, ?_⟩
  case greaterEqual | less =>
    obtain ⟨c, is⟩ := forward rfl
    cases c <;> simp [is]
  case greater | lessEqual =>
    obtain ⟨c, is⟩ := backward rfl
    cases c <;> simp [is]
  all_goals simp

/-- The dual of a connective over flipped operands has the flipped outcome. -/
theorem LogicalOp.flips_dual? {op dual : LogicalOp} (found : op.dual? = some dual)
    {left left' right right' : Option Value} (flipsLeft : Flips left left')
    (flipsRight : Flips right right') :
    Flips (op.outcome left right) (dual.outcome left' right') := by
  intro v result
  obtain ⟨a, rfl, ends⟩ := Option.bind_eq_some_iff.1 result
  obtain ⟨a', rfl, flipped⟩ := flipsLeft a rfl
  have stops : dual.stopsAt a' = op.stopsAt a := by
    cases op <;> cases found <;> simp [stopsAt, flipped]
  rw [outcome, Option.bind_some, stops]
  by_cases stopped : op.stopsAt a = true
  · rw [if_pos stopped] at ends ⊢
    cases ends
    exact ⟨a', rfl, flipped⟩
  · rw [if_neg stopped] at ends ⊢
    exact flipsRight v ends

namespace Expr

/-- Has the node an answer, if it compares by order and both operands have values? -/
def answers (bindings : Bindings) : Expr Mark → Bool
  | binary _ op left right =>
    match left.eval bindings, right.eval bindings with
    | .ok a, .ok b => !op.isOrder || (a.lessThan? b).isSome
    | _, _ => true
  | _ => true

/-- Have all comparisons by order in the expression answers? -/
def isComparable (bindings : Bindings) (e : Expr Mark) : Bool :=
  (e.descendants ++ [e]).all (answers bindings)

theorem isComparable_withMark (bindings : Bindings) (e : Expr Mark) (mark : Mark) :
    (e.withMark mark).isComparable bindings = e.isComparable bindings := by
  have same : (e.withMark mark).answers bindings = e.answers bindings := by cases e <;> rfl
  simp [isComparable, descendants_withMark, same]

end Expr

namespace Phrase

variable {bindings : Bindings}

theorem isComparable_linked {op : Infix} {left right : Phrase} {sign : Piece} {count offset : Nat}
    (comparable : ((linked op left sign right).node count offset).isComparable bindings = true) :
    (left.node count offset).isComparable bindings = true ∧
      (right.node (count + (left.inside + 1)) (offset + left.bytes + sign.bytes)).isComparable
        bindings = true ∧
      ((linked op left sign right).node count offset).answers bindings = true := by
  rw [Expr.isComparable, descendants_linked] at comparable
  simpa [Expr.isComparable, nodes, and_assoc] using comparable

theorem lessThan?_ne_none_of_answers {op : BinaryOp} {left right : Phrase} {sign : Piece}
    {count offset : Nat} {a b : Value}
    (answers : ((linked (.binary op) left sign right).node count offset).answers bindings = true)
    (isLeft : left.value bindings = some a) (isRight : right.value bindings = some b) :
    op.isOrder = true → a.lessThan? b ≠ none := by
  have first := eq_ok_of_toOption ((eval_node bindings left count offset).trans isLeft)
  have second := eq_ok_of_toOption ((eval_node bindings right (count + (left.inside + 1))
    (offset + left.bytes + sign.bytes)).trans isRight)
  rw [node_linked, Infix.build, Expr.answers, first, second] at answers
  simpa [Option.isSome_iff_ne_none, or_iff_not_imp_left] using answers

/-- The negation of a phrase is true where the phrase is false. -/
theorem flips_negated (φ : Phrase) : Flips (φ.value bindings) (φ.negated.value bindings) := by
  intro v found
  refine ⟨.boolean !v.isTruthy, ?_, rfl⟩
  rw [negated, value, value_wrap, found]
  rfl

/-- **The opposite of a phrase is true where the phrase is false.** -/
theorem flips_opposite (φ : Phrase) (count offset : Nat)
    (comparable : (φ.node count offset).isComparable bindings = true) :
    Flips (φ.value bindings) (φ.opposite.value bindings) := by
  -- negation goes inward only through groups and connectives; elsewhere the phrase is whole
  induction φ generalizing count offset with
  | group left inner right ih =>
    rw [node_group, Expr.isComparable_withMark] at comparable
    exact ih _ _ comparable
  | signed sign op operand =>
    by_cases isNot : op = .not
    · subst isNot
      intro v found
      obtain ⟨w, inner, result⟩ := Option.bind_eq_some_iff.1 found
      cases result
      exact ⟨w, inner, by simp⟩
    · rw [opposite_signed isNot]
      exact flips_negated _
  | linked op left sign right ihLeft ihRight =>
    obtain ⟨comparableLeft, comparableRight, answers⟩ := isComparable_linked comparable
    cases op with
    | binary op =>
      rw [opposite]
      split
      · next other found =>
        intro v result
        obtain ⟨a, isLeft, result⟩ := Option.bind_eq_some_iff.1 result
        obtain ⟨b, isRight, result⟩ := Option.bind_eq_some_iff.1 result
        have ordered := lessThan?_ne_none_of_answers answers isLeft isRight
        obtain ⟨w, result, flipped⟩ := BinaryOp.flips_complement? found ordered v result
        refine ⟨w, ?_, flipped⟩
        rw [compare, value, value_led, isLeft, isRight]
        exact result
      · exact flips_negated _
    | logical op =>
      rw [opposite]
      split
      · next dual found =>
        rw [value_wrap, value_join]
        exact LogicalOp.flips_dual? found (ihLeft _ _ comparableLeft) (ihRight _ _ comparableRight)
      · exact flips_negated _
  | _ => exact flips_negated _

end Phrase

/-- **A negation has the strength that is given with it and is true where the expression is false**,
for all values of the names for which the comparisons by order have answers. -/
theorem Program.isTruthy_negation {source : String} {program : Program} {e : Expr Mark}
    (read : parse source = .ok program ∨ ∃ root, parseExpression source = .ok (program, root))
    (mem : e ∈ program.exprs) (plain : program.isPlain e = true) :
    ∃ negation program' root, program.negation e = .ok negation ∧
      parseExpression negation.text = .ok (program', root) ∧
        root.precedence = negation.precedence ∧
          ∀ (bindings : Bindings) (v : Value), program.eval bindings e = .ok v →
            e.isComparable bindings = true →
              ∃ w, program'.eval bindings root = .ok w ∧ w.isTruthy = !v.isTruthy := by
  obtain ⟨row, spells, spelled⟩ := exists_stands read
  obtain ⟨φ, offset, count, outer, ⟨stands, bare⟩, rfl⟩ := spelled e mem plain
  obtain ⟨program', root, again, strength, evaluates⟩ := stands.neat.opposite.1.legible.reread
  refine ⟨_, program', root, stands.negation_eq spells outer count, again, strength, ?_⟩
  intro bindings v evaluated comparable
  rw [Phrase.enclosed, Expr.isComparable_withMark] at comparable
  have value : φ.value bindings = some v := by
    rw [← φ.toOption_eval_enclosed outer count offset program, evaluated]
    rfl
  obtain ⟨w, found, flipped⟩ := φ.flips_opposite count offset comparable v value
  exact ⟨w, eq_ok_of_toOption ((evaluates bindings).1.trans found), flipped⟩

/-- A comparison by order and a negation as the test of a loop, with values that make it true. -/
theorem Program.isTruthy_negation_loop : ∃ program e,
    parse "while (x >= 'b' && !(y || z)) ;" = .ok program ∧
      (e ∈ program.exprs ∧ program.isPlain e = true) ∧
        program.negation e = .ok ⟨"(x < 'b' || (y || z))", .primary⟩ ∧
          ((program.eval (.ofList [("x", .string "c"), ("y", .null), ("z", .null)]) e).toOption.any
              Value.isTruthy = true ∧
            e.isComparable (.ofList [("x", .string "c"), ("y", .null), ("z", .null)]) = true) ∧
          ∃ negation program' root, program.negation e = .ok negation ∧
            parseExpression negation.text = .ok (program', root) ∧
              root.precedence = negation.precedence ∧
                ∀ (bindings : Bindings) (v : Value), program.eval bindings e = .ok v →
                  e.isComparable bindings = true →
                    ∃ w, program'.eval bindings root = .ok w ∧ w.isTruthy = !v.isTruthy := by
  have holds : holdsPlain "while (x >= 'b' && !(y || z)) ;" (fun program e =>
      (program.negation e).toOption = some ⟨"(x < 'b' || (y || z))", .primary⟩ &&
        ((program.eval (.ofList [("x", .string "c"), ("y", .null), ("z", .null)]) e).toOption.any
            Value.isTruthy &&
          e.isComparable (.ofList [("x", .string "c"), ("y", .null), ("z", .null)]))) = true := by
    decide +kernel
  obtain ⟨program, e, read, ⟨mem, plain⟩, found⟩ := exists_of_holdsPlain holds
  rw [Bool.and_eq_true, Bool.and_eq_true, decide_eq_true_eq] at found
  exact ⟨program, e, read, ⟨mem, plain⟩, eq_ok_of_toOption found.1, found.2,
    isTruthy_negation (.inl read) mem plain⟩

end TidyScript
