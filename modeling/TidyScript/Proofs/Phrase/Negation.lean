import TidyScript.Proofs.Phrase.Shortening
import TidyScript.Rule.Logic

/-!
# Negating a phrase

The negation of an expression is the text of the opposite of its phrase, which is legible and
weighs at most twice as much: that is what the expression behind a negation weighs. Where the
negation moves inward the opposite weighs less than that, and it is a comparison or stands in
parentheses.
-/

namespace TidyScript

open Grammar Token

/-! ## New negations and comparisons -/

/-- A comparison and its complement bind alike. -/
theorem BinaryOp.complement?_eq_some {op other : BinaryOp} (found : op.complement? = some other) :
    other.isComparison = true ∧ (Infix.binary other).power = (Infix.binary op).power ∧
      (Infix.binary other).rightLeast = (Infix.binary op).rightLeast := by
  cases op <;> cases found <;> decide

namespace Phrase

/-- The phrase in parentheses, behind a negation. -/
def negated (φ : Phrase) : Phrase :=
  signed (Piece.sign [] "!") .not (φ.wrap [])

/-- Two phrases with a comparison between them. -/
def compare (op : BinaryOp) (left right : Phrase) : Phrase :=
  linked (.binary op) left (Piece.sign blank op.text) (right.led blank)

section New

variable {φ left right : Phrase} {op : BinaryOp} {airy : Prop}

theorem neat_negated (neat : φ.Neat airy) : φ.negated.Neat airy := by
  have inner : (φ.wrap []).Neat airy := neat.wrap .nil
  have whole : (Piece.sign [] "!").Whole := whole_sign .nil (by decide)
  have grouped : φ.negated.Grouped :=
    ⟨⟨rfl, by decide, by decide⟩, inner.legible.grouped, by simp [wrap]⟩
  have behind : (Piece.sign [] "!").Meets (φ.wrap []).first :=
    Piece.meets_of_opening whole (by decide) (isPunct_sign [] "!") inner.legible.whole_first
      inner.legible.grouped.isStart_first
  exact ⟨legible_signed grouped whole behind inner.legible,
    fun asked => (airy_signed grouped).2 (inner.airy asked)⟩

theorem ofList_text_negated : String.ofList φ.negated.text = "!(" ++ String.ofList φ.text ++ ")" := by
  rw [negated, text_signed, text_wrap]
  apply String.ext
  simp [Piece.sign]

theorem weight_negated : φ.negated.weight = 2 * φ.weight := by
  rw [negated, weight, weight_wrap]
  rfl

theorem neat_compare (compares : op.isComparison = true) (neatLeft : left.Neat airy)
    (holds : (Infix.binary op).power < left.hold) (neatRight : right.Neat airy)
    (tight : (Infix.binary op).rightLeast + 2 ≤ right.rank) : (compare op left right).Neat airy := by
  have known : op.text ∈ newSigns ∧ op.text ∈ Piece.closings ∧ op.text ∈ Piece.openings := by
    cases op <;> first | decide | cases compares
  have link : (Piece.sign blank op.text).linkOp? = some (.binary op) := by
    cases op <;> rfl
  have inner : (right.led blank).Neat airy := neatRight.led gap_blank
  have whole := whole_sign gap_blank known.1
  have isText := isPunct_sign blank op.text
  have grouped : (compare op left right).Grouped :=
    ⟨link, ⟨neatLeft.legible.grouped, holds⟩, inner.legible.grouped, by rwa [rank_led]⟩
  have legible : (compare op left right).Legible :=
    legible_linked grouped neatLeft.legible
      (Piece.meets_of_closing neatLeft.legible.whole_last neatLeft.legible.grouped.isEnd_last whole
        known.2.1 isText) whole
      (Piece.meets_of_opening whole known.2.2 isText inner.legible.whole_first
        inner.legible.grouped.isStart_first) inner.legible
  exact ⟨legible, fun asked =>
    (airy_linked grouped).2 ⟨⟨neatLeft.airy asked, .of_isPunct isText⟩, inner.airy asked⟩⟩

theorem ofList_text_compare : String.ofList (compare op left right).text =
    String.ofList left.text ++ " " ++ op.text ++ " " ++ String.ofList right.text := by
  rw [compare, text_linked, first_led, text_led]
  apply String.ext
  simp [Piece.sign, Piece.chars, Piece.led, blank]

theorem weight_compare : (compare op left right).weight = left.weight + right.weight + 1 := by
  rw [compare, weight, weight_led]
  rfl

theorem rank_compare_le (compares : op.isComparison = true) : (compare op left right).rank ≤ 10 := by
  rw [compare, rank_linked]
  cases op <;> first | decide | cases compares

theorem one_le_rank_compare : 1 ≤ (compare op left right).rank := by
  rw [compare, rank_linked]
  omega

end New

end Phrase

/-! ## The opposite of a phrase -/

/-- Does a negation in front of the expression move into it? -/
def Expr.movesInward {α : Type} (e : Expr α) : Bool :=
  (Program.negationKind? e).isSome && e.isNegatable

namespace Phrase

/-- What negation makes of a phrase. It moves into connectives that have a dual and into
comparisons, and it takes another negation away. -/
def opposite : Phrase → Phrase
  | group _ inner _ => inner.opposite
  | signed _ .not operand => operand
  | linked (.binary op) left sign right =>
    match op.complement? with
    | some other => compare other left right
    | none => (linked (.binary op) left sign right).negated
  | linked (.logical op) left sign right =>
    match op.dual? with
    | some dual => (join dual [] left.opposite right.opposite).wrap []
    | none => (linked (.logical op) left sign right).negated
  | φ => φ.negated

section Opposite

variable {airy : Prop} {φ left right : Phrase} {sign : Piece}

theorem opposite_signed {op : UnaryOp} (other : op ≠ .not) :
    (signed sign op φ).opposite = (signed sign op φ).negated := by
  cases op <;> first | rfl | exact absurd rfl other

theorem one_le_rank_negated : 1 ≤ φ.negated.rank := by
  simp [negated]

/-- The opposite of a neat phrase is neat, and it has no comma outside of parentheses. -/
theorem Neat.opposite (neat : φ.Neat airy) : φ.opposite.Neat airy ∧ 1 ≤ φ.opposite.rank := by
  induction φ with
  | group left inner right ih => exact ih neat.group
  | signed sign op operand =>
    by_cases isNot : op = .not
    · subst isNot
      obtain ⟨_, _, tight⟩ := neat.legible.grouped
      exact ⟨neat.signed, Nat.le_trans (by decide) tight⟩
    · rw [opposite_signed isNot]
      exact ⟨neat_negated neat, one_le_rank_negated⟩
  | linked op left sign right ihLeft ihRight =>
    cases op with
    | binary op =>
      rw [Phrase.opposite]
      split
      · next other found =>
        obtain ⟨compares, power, rightLeast⟩ := BinaryOp.complement?_eq_some found
        obtain ⟨_, ⟨_, holds⟩, _, tight⟩ := neat.legible.grouped
        exact ⟨neat_compare compares neat.linked.1 (power ▸ holds) neat.linked.2 (rightLeast ▸ tight),
          one_le_rank_compare⟩
      · exact ⟨neat_negated neat, one_le_rank_negated⟩
    | logical op =>
      rw [Phrase.opposite]
      split
      · exact ⟨(neat_join .nil (ihLeft neat.linked.1).1 (ihRight neat.linked.2).1).wrap .nil,
          one_le_rank_wrap _ _⟩
      · exact ⟨neat_negated neat, one_le_rank_negated⟩
  | _ => exact ⟨neat_negated neat, one_le_rank_negated⟩

/-- The opposite weighs at most what the negation of the phrase does. -/
theorem weight_opposite_le (φ : Phrase) : φ.opposite.weight ≤ 2 * φ.weight := by
  induction φ with
  | group left inner right ih => exact ih
  | signed sign op operand =>
    by_cases isNot : op = .not
    · subst isNot
      have doubled : (signed sign .not operand).weight = 2 * operand.weight := rfl
      rw [opposite]
      omega
    · rw [opposite_signed isNot, weight_negated]
  | linked op left sign right ihLeft ihRight =>
    cases op with
    | binary op =>
      rw [opposite]
      split
      · have heavy : (linked (.binary op) left sign right).weight =
            left.weight + right.weight + 1 := rfl
        rw [weight_compare]
        omega
      · rw [weight_negated]
    | logical op =>
      rw [opposite]
      split
      · have heavy : (linked (.logical op) left sign right).weight =
            2 * left.weight + right.weight + 1 := rfl
        rw [weight_wrap, weight_join]
        omega
      · rw [weight_negated]
  | _ => exact Nat.le_of_eq weight_negated

end Opposite

end Phrase

/-! ## The negation of a node -/

namespace Phrase

section Node

variable {φ : Phrase} {airy : Prop} {row : List Piece} {program : Program} {offset : Nat}

theorem Stands.wrappedNegation_eq (stands : φ.Stands airy row offset) (spells : program.Spells row)
    (bare : φ.isGroup = false) (outer : Span) (count : Nat) :
    program.wrappedNegation (φ.enclosed outer count offset) =
      .ok ⟨String.ofList φ.negated.text, φ.negated.strength⟩ := by
  rw [Program.wrappedNegation, Program.exprText, span_enclosed, span_node_of_not_isGroup bare,
    stands.isAt.text_eq spells, ofList_text_negated]
  rfl

/-- **The negation of a node is the text of the opposite of its phrase.** -/
theorem Stands.negation_eq (stands : φ.Stands airy row offset) (spells : program.Spells row)
    (outer : Span) (count : Nat) :
    program.negation (φ.enclosed outer count offset) =
      .ok ⟨String.ofList φ.opposite.text, φ.opposite.strength⟩ := by
  induction φ generalizing offset outer count with
  | atom word =>
    have wrapped := stands.wrappedNegation_eq spells rfl outer count
    rcases word.leaf_cases ((atom word).mark count offset) with
      ⟨_, leaf⟩ | ⟨_, leaf⟩ | leaf | leaf <;>
      rw [enclosed, node_atom, leaf] at wrapped ⊢ <;> exact wrapped
  | group left inner right ih =>
    rw [enclosed_group]
    exact ih stands.group outer count
  | signed sign op operand =>
    by_cases isNot : op = .not
    · subst isNot
      exact stands.signed.fragment_eq spells count
    · have wrapped := stands.wrappedNegation_eq spells rfl outer count
      rw [opposite_signed isNot, ← wrapped]
      cases op <;> first | rfl | exact absurd rfl isNot
  | linked op left sign right ihLeft ihRight =>
    have wrapped := stands.wrappedNegation_eq spells rfl outer count
    obtain ⟨standsLeft, standsRight⟩ := stands.linked
    rw [enclosed, node_linked] at wrapped ⊢
    cases op with
    | binary op =>
      rw [opposite]
      cases found : op.complement? with
      | none =>
        simp only [Infix.build, Expr.withMark, Program.negation, found] at wrapped ⊢
        exact wrapped
      | some other =>
        simp only [Infix.build, Expr.withMark, Program.negation, found,
          standsLeft.isAt.exprSource_eq spells, standsRight.isAt.exprSource_eq spells,
          ofList_text_compare]
        rfl
    | logical op =>
      have madeLeft := ihLeft standsLeft (left.span offset) count
      have madeRight := ihRight standsRight (right.span (offset + left.bytes + sign.bytes))
        (count + (left.inside + 1))
      rw [enclosed_span] at madeLeft madeRight
      rw [opposite]
      cases found : op.dual? with
      | none =>
        simp only [Infix.build, Expr.withMark, Program.negation, found] at wrapped ⊢
        exact wrapped
      | some dual =>
        simp only [Infix.build, Expr.withMark, Program.negation, found, madeLeft, madeRight,
          ofList_text_wrap, ofList_text_join, ofList_text_operand]
        rfl
  | choice test mark yes colon no => exact stands.wrappedNegation_eq spells rfl outer count
  | comma first sign rest =>
    have wrapped := stands.wrappedNegation_eq spells rfl outer count
    rw [enclosed, node_comma] at wrapped ⊢
    exact wrapped

/-- Where the negation moves inward, the opposite weighs less, and it is a comparison or stands in
parentheses. -/
theorem opposite_of_movesInward (outer : Span) (count offset : Nat)
    (moves : (φ.enclosed outer count offset).movesInward = true) :
    φ.opposite.weight < 2 * φ.weight ∧
      (φ.opposite.rank ≤ 10 ∨ ∃ χ : Phrase, φ.opposite = χ.wrap []) := by
  induction φ generalizing offset with
  | atom word =>
    rcases word.leaf_cases ((atom word).mark count offset) with
      ⟨_, leaf⟩ | ⟨_, leaf⟩ | leaf | leaf <;>
      rw [enclosed, node_atom, leaf] at moves <;> cases moves
  | group left inner right ih =>
    rw [enclosed_group] at moves
    exact ih _ moves
  | signed sign op operand => cases moves
  | linked op left sign right =>
    rw [enclosed, node_linked] at moves
    cases op with
    | binary op =>
      rw [opposite]
      cases found : op.complement? with
      | none =>
        simp [Infix.build, Expr.withMark, Expr.movesInward, Expr.isNegatable,
          BinaryOp.isComparison, found] at moves
      | some other =>
        have heavy : (linked (.binary op) left sign right).weight =
            left.weight + right.weight + 1 := rfl
        dsimp only
        refine ⟨?_, .inl (rank_compare_le (BinaryOp.complement?_eq_some found).1)⟩
        rw [weight_compare]
        omega
    | logical op =>
      rw [opposite]
      cases found : op.dual? with
      | none =>
        simp [Infix.build, Expr.withMark, Expr.movesInward, Expr.isNegatable, found] at moves
      | some dual =>
        have heavy : (linked (.logical op) left sign right).weight =
            2 * left.weight + right.weight + 1 := rfl
        have := left.weight_opposite_le
        have := right.weight_opposite_le
        dsimp only
        refine ⟨?_, .inr ⟨_, rfl⟩⟩
        rw [weight_wrap, weight_join]
        omega
  | choice => cases moves
  | comma first sign rest =>
    rw [enclosed, node_comma] at moves
    cases moves

end Node

end Phrase

namespace Sentence

/-- The negation of the expression is the text of a legible phrase without commas, of at most
twice the weight. -/
def Negated (s : Sentence) (program : Program) (e : Expr Mark) (weight : Nat) : Prop :=
  ∃ ψ : Phrase, program.negation e = .ok ⟨String.ofList ψ.text, ψ.strength⟩ ∧
    (ψ.Neat s.phrase.Airy ∧ 1 ≤ ψ.rank) ∧ ψ.weight ≤ 2 * weight ∧
      (e.movesInward = true →
        ψ.weight < 2 * weight ∧ (ψ.rank ≤ 10 ∨ ∃ χ : Phrase, ψ = χ.wrap []))

/-- **Negating a part of a sentence gives the text of a legible phrase.** -/
theorem Part.negated {s : Sentence} {program : Program} {φ : Phrase} {offset : Nat} (sound : s.Sound)
    (isRead : s.IsRead program) (part : s.Part φ offset) (outer : Span) (count : Nat) :
    s.Negated program (φ.enclosed outer count offset) φ.weight :=
  ⟨φ.opposite, (part.stands sound).negation_eq (isRead.spells sound) outer count,
    (part.neat sound).opposite, φ.weight_opposite_le,
    Phrase.opposite_of_movesInward outer count offset⟩

end Sentence

end TidyScript
