import TidyScript.Logic.Equivalence
import TidyScript.Proofs.Phrase.Row
import TidyScript.Proofs.Phrase.Value
import TidyScript.Proofs.Text.Cut
import TidyScript.Proofs.Token.Search

/-!
# Phrases in their place

A phrase is held by a sentence when its pieces stand somewhere in a row among those of the
sentence. More generally its pieces may stand among any that a program is read from. Of such a
phrase the program knows the text, the tokens and the strength, and it tells whether two of them
read the same; those that do have the same value.
-/

namespace TidyScript

open Grammar

namespace Piece

theorem leaf_cases (p : Piece) (mark : Mark) :
    (∃ name, p.leaf mark = .identifier mark name) ∨ (∃ value, p.leaf mark = .literal mark value) ∨
      p.leaf mark = .thisRef mark ∨ p.leaf mark = .hidden mark := by
  unfold leaf atom?
  repeat' split
  all_goals simp

/-- The text of a row of pieces without the gap at the front. -/
def written : List Piece → List Char
  | [] => []
  | p :: ps => p.text ++ ps.flatMap chars

/-- Rows of tokens that mean the same come from pieces that do. -/
theorem forall₂_of_sameRow {offset offset' : Nat} {ps qs : List Piece}
    (same : Token.sameRow (tokens offset ps) (tokens offset' qs) = true) :
    List.Forall₂ Same ps qs := by
  induction ps generalizing offset offset' qs with
  | nil =>
    cases qs with
    | nil => exact .nil
    | cons q qs => simp [Token.sameRow] at same
  | cons p ps ih =>
    cases qs with
    | nil => simp [Token.sameRow] at same
    | cons q qs =>
      simp only [Token.sameRow, tokens_cons, List.length_cons, List.zip_cons_cons, List.all_cons,
        Bool.and_eq_true, decide_eq_true_eq, Nat.add_right_cancel_iff] at same
      refine .cons same.2.1 (@ih (offset + p.bytes) (offset' + q.bytes) qs ?_)
      simp only [Token.sameRow, Bool.and_eq_true, decide_eq_true_eq]
      exact ⟨same.1, same.2.2⟩

theorem mem_tokens_bounds {offset : Nat} {ps : List Piece} (some : ∀ p ∈ ps, p.text ≠ [])
    {token : Token} (mem : token ∈ tokens offset ps) :
    offset ≤ token.span.start ∧ token.span.start < token.span.stop ∧
      token.span.stop ≤ offset + width ps := by
  induction ps generalizing offset with
  | nil => cases mem
  | cons p ps ih =>
    rw [List.forall_mem_cons] at some
    rw [width_cons]
    rcases List.mem_cons.1 mem with rfl | mem
    · have := Text.byteLength_pos some.1
      simp only [token, bytes, chars, Text.byteLength_append]
      omega
    · have := ih some.2 mem
      omega

theorem pairwise_tokens {offset : Nat} {ps : List Piece} (some : ∀ p ∈ ps, p.text ≠ []) :
    (tokens offset ps).Pairwise fun a b => a.span.stop ≤ b.span.start := by
  induction ps generalizing offset with
  | nil => exact .nil
  | cons p ps ih =>
    rw [List.forall_mem_cons] at some
    refine List.pairwise_cons.2 ⟨fun token mem => ?_, ih some.2⟩
    exact (mem_tokens_bounds some.2 mem).1

end Piece

namespace Phrase

/-- The text of a phrase without the gap at the front. -/
def text (φ : Phrase) : List Char :=
  Piece.written φ.pieces

theorem flatMap_chars (φ : Phrase) : φ.pieces.flatMap Piece.chars = φ.first.gap ++ φ.text := by
  obtain ⟨others, parts⟩ := φ.pieces_eq_cons
  rw [text, parts]
  simp [Piece.written, Piece.chars]

theorem bytes_eq (φ : Phrase) :
    φ.bytes = Text.byteLength φ.first.gap + Text.byteLength φ.text := by
  rw [bytes, Piece.width, flatMap_chars, Text.byteLength_append]

/-- The pieces of the phrase stand in a row among others, from a byte offset on. -/
def IsAt (φ : Phrase) (row : List Piece) (offset : Nat) : Prop :=
  ∃ before behind, row = before ++ φ.pieces ++ behind ∧ Piece.width before = offset

section Parts

variable {row : List Piece} {offset : Nat}

theorem IsAt.part {φ ψ : Phrase} (isAt : φ.IsAt row offset) (before behind : List Piece)
    (parts : φ.pieces = before ++ ψ.pieces ++ behind) : ψ.IsAt row (offset + Piece.width before) := by
  obtain ⟨front, back, whole, width⟩ := isAt
  refine ⟨front ++ before, behind ++ back, ?_, ?_⟩
  · simp [whole, parts]
  · rw [Piece.width_append, width]

theorem IsAt.group {left right : Piece} {inner : Phrase}
    (isAt : (group left inner right).IsAt row offset) : inner.IsAt row (offset + left.bytes) := by
  simpa using isAt.part [left] [right] (by simp [pieces])

theorem IsAt.signed {sign : Piece} {op : UnaryOp} {operand : Phrase}
    (isAt : (signed sign op operand).IsAt row offset) : operand.IsAt row (offset + sign.bytes) := by
  simpa using isAt.part [sign] [] (by simp [pieces])

theorem IsAt.linked {op : Infix} {left right : Phrase} {sign : Piece}
    (isAt : (linked op left sign right).IsAt row offset) :
    left.IsAt row offset ∧ right.IsAt row (offset + left.bytes + sign.bytes) := by
  constructor
  · simpa using isAt.part [] (sign :: right.pieces) (by simp [pieces])
  · simpa [bytes, Nat.add_assoc] using isAt.part (left.pieces ++ [sign]) [] (by simp [pieces])

theorem IsAt.choice {test yes no : Phrase} {mark colon : Piece}
    (isAt : (choice test mark yes colon no).IsAt row offset) :
    test.IsAt row offset ∧ yes.IsAt row (offset + test.bytes + mark.bytes) ∧
      no.IsAt row (offset + test.bytes + mark.bytes + yes.bytes + colon.bytes) := by
  refine ⟨?_, ?_, ?_⟩
  · simpa using isAt.part [] (mark :: (yes.pieces ++ colon :: no.pieces)) (by simp [pieces])
  · simpa [bytes, Nat.add_assoc] using
      isAt.part (test.pieces ++ [mark]) (colon :: no.pieces) (by simp [pieces])
  · simpa [bytes, Nat.add_assoc] using
      isAt.part (test.pieces ++ mark :: (yes.pieces ++ [colon])) [] (by simp [pieces])

theorem IsAt.comma {first rest : Phrase} {sign : Piece}
    (isAt : (comma first sign rest).IsAt row offset) :
    first.IsAt row offset ∧ rest.IsAt row (offset + first.bytes + sign.bytes) := by
  constructor
  · simpa using isAt.part [] (sign :: rest.pieces) (by simp [pieces])
  · simpa [bytes, Nat.add_assoc] using isAt.part (first.pieces ++ [sign]) [] (by simp [pieces])

end Parts

end Phrase

/-- The program is read from the row of pieces, with a gap behind it. -/
structure Program.Spells (program : Program) (row : List Piece) : Prop where
  source : ∃ final, program.source.toList = Piece.render row final
  tokens : program.tokens = (Piece.tokens 0 row).toArray
  some : ∀ p ∈ row, p.text ≠ []

namespace Sentence

/-- The pieces of the phrase stand in a row among those of the sentence, from a byte offset on. -/
def Holds (s : Sentence) (φ : Phrase) (offset : Nat) : Prop :=
  φ.IsAt s.pieces offset

section Parts

variable {s : Sentence} {offset : Nat}

theorem holds_phrase (s : Sentence) : s.Holds s.phrase 0 :=
  ⟨[], s.ending, by simp [pieces], rfl⟩

/-- The pieces of a sound sentence are whole, and neighbours meet. -/
theorem Sound.row (sound : s.Sound) :
    (∀ p ∈ s.pieces, p.Whole) ∧ List.IsChain Piece.Meets s.pieces := by
  obtain ⟨grouped, wholes, chain⟩ := sound.legible
  rw [pieces]
  rcases sound.ending with none | ⟨semicolon, one, isSemicolon⟩
  · rw [none, List.append_nil]
    exact ⟨wholes, chain⟩
  · have whole := sound.whole_ending semicolon (by simp [one])
    rw [one]
    refine ⟨?_, Phrase.isChain_concat.2 ⟨chain, Piece.meets_of_closing sound.legible.whole_last
      grouped.isEnd_last whole (by decide) isSemicolon⟩⟩
    intro p mem
    rcases List.mem_append.1 mem with mem | mem
    · exact wholes p mem
    · exact List.mem_singleton.1 mem ▸ whole

/-- A phrase that a sound sentence holds can be read if it is grouped. -/
theorem Holds.legible {φ : Phrase} (holds : s.Holds φ offset) (sound : s.Sound)
    (grouped : φ.Grouped) : φ.Legible := by
  obtain ⟨before, behind, parts, _⟩ := holds
  obtain ⟨wholes, chain⟩ := sound.row
  rw [parts] at wholes chain
  refine ⟨grouped, fun p mem => wholes p ?_, ?_⟩
  · exact List.mem_append_left _ (List.mem_append_right _ mem)
  · exact chain.left_of_append.right_of_append

theorem IsRead.spells {program : Program} (isRead : s.IsRead program) (sound : s.Sound) :
    program.Spells s.pieces where
  source := ⟨s.final, by rw [isRead.source, Sentence.source, String.toList_ofList]⟩
  tokens := isRead.tokens
  some p mem := (sound.row.1 p mem).text_ne_nil

end Parts

end Sentence

/-! ## The text -/

namespace Phrase

section Program

variable {row : List Piece} {program : Program} {offset : Nat} {φ : Phrase}

/-- The program knows the text of every phrase. -/
theorem IsAt.text_eq (isAt : φ.IsAt row offset) (spells : program.Spells row) :
    program.text (φ.span offset) = .ok (String.ofList φ.text) := by
  obtain ⟨before, behind, parts, rfl⟩ := isAt
  obtain ⟨final, written⟩ := spells.source
  have source : program.source.toList =
      (before.flatMap Piece.chars ++ φ.first.gap) ++ φ.text ++ (behind.flatMap Piece.chars ++ final) := by
    rw [written, Piece.render, parts, List.flatMap_append, List.flatMap_append, φ.flatMap_chars]
    simp
  have cut := Text.cut_middle source
  rw [Text.byteLength_append] at cut
  rw [Program.text, Phrase.span, φ.bytes_eq, ← Nat.add_assoc]
  exact cut

theorem IsAt.exprSource_eq (isAt : φ.IsAt row offset) (spells : program.Spells row) (count : Nat) :
    program.exprSource (φ.node count offset) = .ok (String.ofList φ.text) := by
  rw [Program.exprSource, Phrase.outer_node, isAt.text_eq spells]

end Program

end Phrase

/-! ## Strength -/

namespace Phrase

/-- Where the node without its parentheses stands. -/
theorem Grouped.span_node_bounds {φ : Phrase} (grouped : φ.Grouped) (count offset : Nat) :
    offset + Text.byteLength φ.first.gap ≤ (φ.node count offset).span.start ∧
      (φ.node count offset).span.stop ≤ offset + φ.bytes := by
  induction φ generalizing offset with
  | group left inner right ih =>
    obtain ⟨isLeft, inside, _⟩ := grouped
    obtain ⟨lower, upper⟩ := ih inside (offset + left.bytes)
    rw [node_group, Expr.span, Expr.mark_withMark, bytes_group]
    simp only [Expr.span] at lower upper
    simp only [first, Piece.bytes, Piece.chars, Text.byteLength_append] at lower upper ⊢
    omega
  | atom word => rw [node_atom, Expr.span, Piece.mark_leaf]; exact ⟨Nat.le_refl _, Nat.le_refl _⟩
  | signed sign op operand => exact ⟨Nat.le_refl _, Nat.le_refl _⟩
  | linked op left sign right =>
    rw [node_linked, Expr.span, Infix.mark_build]
    exact ⟨Nat.le_refl _, Nat.le_refl _⟩
  | choice test mark yes colon no => exact ⟨Nat.le_refl _, Nat.le_refl _⟩
  | comma first sign rest => rw [node_comma]; exact ⟨Nat.le_refl _, Nat.le_refl _⟩

/-- A group stands in parentheses. -/
theorem isParenthesized_group {left right : Piece} {inner : Phrase}
    (grouped : (group left inner right).Grouped) (count offset : Nat) :
    ((group left inner right).node count offset).isParenthesized = true := by
  obtain ⟨isLeft, inside, _⟩ := grouped
  have lower := (inside.span_node_bounds count (offset + left.bytes)).1
  have text := (Piece.text_eq_of_isPunct isLeft).2
  rw [node_group, Expr.isParenthesized, Expr.mark_withMark, Mark.isParenthesized]
  simp only [decide_eq_true_eq, ne_eq]
  intro same
  have start := congrArg Span.start same
  simp only [Expr.span] at lower
  have := Char.utf8Size_pos '('
  simp [span, first, Piece.bytes, Piece.chars, text] at start lower
  omega

theorem isParenthesized_mark (φ : Phrase) (count offset : Nat) :
    (φ.mark count offset).isParenthesized = false := by
  simp [mark, Mark.isParenthesized]

/-- The strength of a node is that of its phrase. -/
theorem Grouped.precedence_node {φ : Phrase} (grouped : φ.Grouped) (count offset : Nat) :
    (φ.node count offset).precedence = φ.strength := by
  unfold Expr.precedence
  cases φ with
  | group left inner right => rw [if_pos (isParenthesized_group grouped count offset)]; rfl
  | atom word =>
    rw [node_atom, Expr.isParenthesized, Piece.mark_leaf, isParenthesized_mark]
    rcases word.leaf_cases ((atom word).mark count offset) with
      ⟨_, leaf⟩ | ⟨_, leaf⟩ | leaf | leaf <;> rw [leaf] <;> rfl
  | signed sign op operand =>
    rw [node_signed, Expr.isParenthesized, Expr.mark, isParenthesized_mark]
    rfl
  | linked op left sign right =>
    rw [node_linked, Expr.isParenthesized, Infix.mark_build, isParenthesized_mark]
    cases op <;> rfl
  | choice test mark yes colon no =>
    rw [node_choice, Expr.isParenthesized, Expr.mark, isParenthesized_mark]
    rfl
  | comma first sign rest =>
    rw [node_comma, Expr.isParenthesized, Expr.mark, isParenthesized_mark]
    rfl

/-! ## Spans -/

/-- Does the phrase stand in parentheses? -/
def isGroup : Phrase → Bool
  | group _ _ _ => true
  | _ => false

theorem span_node_of_not_isGroup {φ : Phrase} (core : φ.isGroup = false) (count offset : Nat) :
    (φ.node count offset).span = φ.span offset := by
  cases φ with
  | group left inner right => cases core
  | atom word => rw [node_atom, Expr.span, Piece.mark_leaf]; rfl
  | signed sign op operand => rfl
  | linked op left sign right => rw [node_linked, Expr.span, Infix.mark_build]; rfl
  | choice test mark yes colon no => rfl
  | comma first sign rest => rw [node_comma]; rfl

section Bounds

theorem start_lt_stop_span {φ : Phrase} (some : ∀ p ∈ φ.pieces, p.text ≠ []) (offset : Nat) :
    (φ.span offset).start < (φ.span offset).stop := by
  obtain ⟨others, parts⟩ := φ.pieces_eq_cons
  have written : φ.text ≠ [] := by
    have first := some φ.first (parts ▸ List.mem_cons_self ..)
    simp [text, parts, Piece.written, first]
  have := Text.byteLength_pos written
  rw [span, bytes_eq]
  dsimp only
  omega

theorem start_lt_stop_node {φ : Phrase} (some : ∀ p ∈ φ.pieces, p.text ≠ []) (count offset : Nat) :
    (φ.node count offset).span.start < (φ.node count offset).span.stop := by
  induction φ generalizing offset with
  | group left inner right ih =>
    rw [node_group, Expr.span, Expr.mark_withMark]
    exact ih (fun p mem => some p (by simp [pieces, mem])) (offset + left.bytes)
  | _ =>
    rw [span_node_of_not_isGroup rfl]
    exact start_lt_stop_span some offset

end Bounds

/-! ## Parentheses around a phrase -/

section Enclosed

/-- The node of the phrase with parentheses around it that span `outer`. -/
def enclosed (outer : Span) (count offset : Nat) (φ : Phrase) : Expr Mark :=
  (φ.node count offset).withMark { (φ.node count offset).mark with outer := outer }

variable {φ inner rest : Phrase} {outer : Span} {count offset : Nat} {left right sign : Piece}

theorem enclosed_group :
    (group left inner right).enclosed outer count offset =
      inner.enclosed outer count (offset + left.bytes) := by
  rw [enclosed, node_group, Expr.mark_withMark, Expr.withMark_withMark]
  rfl

theorem enclosed_span : φ.enclosed (φ.span offset) count offset = φ.node count offset := by
  rw [enclosed, ← outer_node count]
  exact Expr.withMark_mark _

theorem span_enclosed : (φ.enclosed outer count offset).span = (φ.node count offset).span := by
  rw [enclosed, Expr.span, Expr.mark_withMark]
  rfl

/-- The phrase without the parentheses around it, at its place. -/
theorem Grouped.exists_core (grouped : φ.Grouped) (count offset : Nat) :
    ∃ (ψ : Phrase) (before behind : List Piece) (outer : Span),
      φ.pieces = before ++ ψ.pieces ++ behind ∧ (ψ.Grouped ∧ ψ.isGroup = false) ∧
        φ.node count offset = ψ.enclosed outer count (offset + Piece.width before) ∧
          ∀ bindings, ψ.value bindings = φ.value bindings := by
  cases bare : φ.isGroup with
  | false =>
    exact ⟨φ, [], [], φ.span offset, by simp, ⟨grouped, bare⟩, enclosed_span.symm, fun _ => rfl⟩
  | true =>
    induction φ generalizing offset with
    | group left inner right ih =>
      obtain ⟨_, inside, _⟩ := grouped
      cases deep : inner.isGroup with
      | false =>
        refine ⟨inner, [left], [right], (group left inner right).span offset, by simp [pieces],
          ⟨inside, deep⟩, ?_, fun _ => rfl⟩
        rw [node_group, Piece.width_cons]
        rfl
      | true =>
        obtain ⟨ψ, before, behind, outer, parts, core, node, value⟩ :=
          ih inside (offset + left.bytes) deep
        refine ⟨ψ, left :: before, behind ++ [right], (group left inner right).span offset,
          by simp [pieces, parts], core, ?_, value⟩
        rw [node_group, node, Piece.width_cons, ← Nat.add_assoc, enclosed, Expr.mark_withMark,
          Expr.withMark_withMark]
        rfl
    | _ => cases bare

theorem isParenthesized_of_not_isGroup (bare : φ.isGroup = false) :
    (φ.node count offset).isParenthesized = false := by
  cases φ with
  | group left inner right => cases bare
  | atom word => rw [node_atom, Expr.isParenthesized, Piece.mark_leaf, isParenthesized_mark]
  | signed sign op operand => exact isParenthesized_mark ..
  | linked op left sign right =>
    rw [node_linked, Expr.isParenthesized, Infix.mark_build, isParenthesized_mark]
  | choice test mark yes colon no => exact isParenthesized_mark ..
  | comma first sign rest =>
    rw [node_comma]
    exact isParenthesized_mark ..

/-- A phrase at its place lies inside another one. -/
def Inside (ψ : Phrase) (place : Nat) (φ : Phrase) (offset : Nat) : Prop :=
  offset + Text.byteLength φ.first.gap ≤ place + Text.byteLength ψ.first.gap ∧
    place + ψ.bytes ≤ offset + φ.bytes

theorem Inside.refl (φ : Phrase) (offset : Nat) : φ.Inside offset φ offset :=
  ⟨Nat.le_refl _, Nat.le_refl _⟩

theorem Inside.trans {ψ χ : Phrase} {place place' : Nat} (first : χ.Inside place' ψ place)
    (second : ψ.Inside place φ offset) : χ.Inside place' φ offset :=
  ⟨Nat.le_trans second.1 first.1, Nat.le_trans first.2 second.2⟩

theorem gap_le_bytes (φ : Phrase) : Text.byteLength φ.first.gap ≤ φ.bytes := by
  rw [bytes_eq]
  exact Nat.le_add_right _ _

theorem inside_group : inner.Inside (offset + left.bytes) (group left inner right) offset := by
  have : left.bytes = Text.byteLength left.gap + Text.byteLength left.text := by
    rw [Piece.bytes, Piece.chars, Text.byteLength_append]
  simp only [Inside, first, bytes_group]
  omega

theorem inside_signed (op : UnaryOp) :
    inner.Inside (offset + sign.bytes) (signed sign op inner) offset := by
  have : sign.bytes = Text.byteLength sign.gap + Text.byteLength sign.text := by
    rw [Piece.bytes, Piece.chars, Text.byteLength_append]
  simp only [Inside, first, bytes_signed]
  omega

theorem inside_linked (op : Infix) (left right : Phrase) :
    left.Inside offset (linked op left sign right) offset ∧
      right.Inside (offset + left.bytes + sign.bytes) (linked op left sign right) offset := by
  have := left.gap_le_bytes
  simp only [Inside, first, bytes_linked]
  omega

theorem inside_choice (test : Phrase) (mark : Piece) (yes : Phrase) (colon : Piece) (no : Phrase) :
    test.Inside offset (choice test mark yes colon no) offset ∧
      yes.Inside (offset + test.bytes + mark.bytes) (choice test mark yes colon no) offset ∧
        no.Inside (offset + test.bytes + mark.bytes + yes.bytes + colon.bytes)
          (choice test mark yes colon no) offset := by
  have := test.gap_le_bytes
  simp only [Inside, first, bytes_choice]
  omega

theorem inside_comma (front : Phrase) :
    front.Inside offset (comma front sign rest) offset ∧
      rest.Inside (offset + front.bytes + sign.bytes) (comma front sign rest) offset := by
  have := front.gap_le_bytes
  simp only [Inside, first, bytes_comma]
  omega

end Enclosed

end Phrase

/-! ## Parts of a sentence -/

namespace Sentence

/-- A grouped phrase of the sentence and its place. -/
structure Part (s : Sentence) (φ : Phrase) (offset : Nat) : Prop where
  holds : s.Holds φ offset
  grouped : φ.Grouped

variable {s : Sentence} {φ : Phrase} {offset : Nat}

theorem Part.legible (sound : s.Sound) (part : s.Part φ offset) : φ.Legible :=
  part.holds.legible sound part.grouped

/-- The node is that of a part inside the phrase, with the parentheses around it. -/
def IsEnclosed (s : Sentence) (φ : Phrase) (offset : Nat) (e : Expr Mark) : Prop :=
  ∃ (ψ : Phrase) (place count : Nat) (outer : Span),
    s.Part ψ place ∧ ψ.Inside place φ offset ∧ e = ψ.enclosed outer count place

theorem IsEnclosed.of_inside {ψ : Phrase} {place : Nat} {e : Expr Mark}
    (enclosed : s.IsEnclosed ψ place e) (inside : ψ.Inside place φ offset) :
    s.IsEnclosed φ offset e := by
  obtain ⟨χ, place', count, outer, part, deep, same⟩ := enclosed
  exact ⟨χ, place', count, outer, part, deep.trans inside, same⟩

theorem Part.isEnclosed_of_descendants (part : s.Part φ offset) {count : Nat}
    (below : ∀ e ∈ (φ.node count offset).descendants, s.IsEnclosed φ offset e) :
    ∀ e ∈ φ.nodes count offset, s.IsEnclosed φ offset e := by
  intro e mem
  rcases List.mem_append.1 mem with mem | here
  · exact below e mem
  · exact ⟨φ, offset, count, _, part, .refl _ _,
      (List.mem_singleton.1 here).trans Phrase.enclosed_span.symm⟩

/-- Every node of a part is that of a part inside it. -/
theorem Part.isEnclosed (part : s.Part φ offset) {count : Nat} :
    ∀ e ∈ φ.nodes count offset, s.IsEnclosed φ offset e := by
  induction φ generalizing offset count with
  | atom word =>
    refine part.isEnclosed_of_descendants fun e mem => ?_
    rw [Phrase.node_atom, Piece.descendants_leaf] at mem
    cases mem
  | group left inner right ih =>
    refine part.isEnclosed_of_descendants fun e mem => ?_
    rw [Phrase.descendants_group] at mem
    exact (ih ⟨part.holds.group, part.grouped.2.1⟩ e (List.mem_append_left _ mem)).of_inside
      Phrase.inside_group
  | signed sign op operand ih =>
    refine part.isEnclosed_of_descendants fun e mem => ?_
    rw [Phrase.descendants_signed] at mem
    exact (ih ⟨part.holds.signed, part.grouped.2.1⟩ e mem).of_inside (Phrase.inside_signed ..)
  | linked op left sign right ihLeft ihRight =>
    refine part.isEnclosed_of_descendants fun e mem => ?_
    rw [Phrase.descendants_linked] at mem
    rcases List.mem_append.1 mem with mem | mem
    · exact (ihLeft ⟨part.holds.linked.1, part.grouped.2.1.1⟩ e mem).of_inside
        (Phrase.inside_linked ..).1
    · exact (ihRight ⟨part.holds.linked.2, part.grouped.2.2.1⟩ e mem).of_inside
        (Phrase.inside_linked ..).2
  | choice test mark yes colon no ihTest ihYes ihNo =>
    refine part.isEnclosed_of_descendants fun e mem => ?_
    obtain ⟨_, ⟨groupedTest, _⟩, ⟨groupedYes, _⟩, groupedNo, _⟩ := part.grouped
    obtain ⟨holdsTest, holdsYes, holdsNo⟩ := part.holds.choice
    obtain ⟨insideTest, insideYes, insideNo⟩ := Phrase.inside_choice test mark yes colon no
    rw [Phrase.descendants_choice] at mem
    rcases List.mem_append.1 mem with mem | mem
    · exact (ihTest ⟨holdsTest, groupedTest⟩ e mem).of_inside insideTest
    rcases List.mem_append.1 mem with mem | mem
    · exact (ihYes ⟨holdsYes, groupedYes⟩ e mem).of_inside insideYes
    · exact (ihNo ⟨holdsNo, groupedNo⟩ e mem).of_inside insideNo
  | comma first sign rest ihFirst ihRest =>
    refine part.isEnclosed_of_descendants fun e mem => ?_
    rw [Phrase.descendants_comma] at mem
    rcases List.mem_append.1 mem with mem | mem
    · exact (ihFirst ⟨part.holds.comma.1, part.grouped.2.1.1⟩ e mem).of_inside
        (Phrase.inside_comma ..).1
    · exact (ihRest ⟨part.holds.comma.2, part.grouped.2.2⟩ e
        (Phrase.mem_nodes_of_mem_completed _ _ mem)).of_inside (Phrase.inside_comma ..).2

/-- Where the nodes of a part stand. -/
theorem Part.span_bounds (sound : s.Sound) (part : s.Part φ offset) {count : Nat} {e : Expr Mark}
    (mem : e ∈ φ.nodes count offset) :
    offset + Text.byteLength φ.first.gap ≤ e.span.start ∧ e.span.start < e.span.stop ∧
      e.span.stop ≤ offset + φ.bytes := by
  obtain ⟨ψ, place, count', outer, partψ, ⟨front, back⟩, rfl⟩ := part.isEnclosed e mem
  obtain ⟨lower, upper⟩ := partψ.grouped.span_node_bounds count' place
  have some := Phrase.start_lt_stop_node
    (fun p mem => ((partψ.legible sound).wholes p mem).text_ne_nil) count' place
  rw [Phrase.span_enclosed]
  omega

end Sentence

/-! ## Tokens -/

namespace Phrase

section Tokens

variable {row : List Piece} {program : Program} {offset : Nat} {φ : Phrase}

/-- The tokens inside the span of a phrase are those of its pieces. -/
theorem IsAt.tokensIn_eq (isAt : φ.IsAt row offset) (spells : program.Spells row) :
    program.tokensIn (φ.span offset) = Piece.tokens offset φ.pieces := by
  obtain ⟨before, behind, parts, rfl⟩ := isAt
  have tokens : Piece.tokens 0 row = Piece.tokens 0 before ++ (Piece.tokens (Piece.width before)
      φ.pieces ++ Piece.tokens (Piece.width before + φ.bytes) behind) := by
    rw [parts, List.append_assoc, Piece.tokens_append, Piece.tokens_append, Nat.zero_add]
    rfl
  have head : (Piece.tokens (Piece.width before) φ.pieces).head? =
      some (φ.first.token (Piece.width before)) := by
    obtain ⟨others, here⟩ := φ.pieces_eq_cons
    rw [here]
    rfl
  obtain ⟨others, here⟩ := φ.pieces_eq_concat
  have last : (Piece.tokens (Piece.width before) φ.pieces).getLast? =
      some (φ.last.token (Piece.width before + Piece.width others)) := by
    rw [here, Piece.tokens_append]
    exact List.getLast?_concat ..
  have found := program.tokensIn_eq (tokens ▸ spells.tokens)
    (tokens ▸ Piece.pairwise_tokens spells.some)
    (tokens ▸ fun token mem => (Piece.mem_tokens_bounds spells.some mem).2.1) head last
  rw [← found, span, bytes, here]
  simp [Piece.token, Nat.add_assoc]

/-- A grouped phrase inside a legible one is legible. -/
theorem Legible.part {ψ : Phrase} (legible : φ.Legible) (before behind : List Piece)
    (parts : φ.pieces = before ++ ψ.pieces ++ behind) (grouped : ψ.Grouped) : ψ.Legible := by
  obtain ⟨_, wholes, chain⟩ := legible
  rw [parts] at wholes chain
  exact ⟨grouped, fun p mem => wholes p (List.mem_append_left _ (List.mem_append_right _ mem)),
    chain.left_of_append.right_of_append⟩

/-- A node spans the phrase without the parentheses around it. -/
theorem exists_span_node (isAt : φ.IsAt row offset) (legible : φ.Legible) (count : Nat) :
    ∃ (ψ : Phrase) (place : Nat), (ψ.IsAt row place ∧ ψ.Legible) ∧
      (φ.node count offset).span = ψ.span place ∧
        ∀ bindings, ψ.value bindings = φ.value bindings := by
  obtain ⟨ψ, before, behind, outer, parts, ⟨grouped, bare⟩, node, value⟩ :=
    legible.grouped.exists_core count offset
  refine ⟨ψ, _, ⟨isAt.part before behind parts, legible.part before behind parts grouped⟩, ?_, value⟩
  rw [node, span_enclosed, span_node_of_not_isGroup bare]

/-- **Nodes of one program that read the same have the same value.** -/
theorem IsAt.value_eq_of_sameExpr {ψ : Phrase} {place : Nat} (spells : program.Spells row)
    (isAtφ : φ.IsAt row offset) (legibleφ : φ.Legible) (isAtψ : ψ.IsAt row place)
    (legibleψ : ψ.Legible) {count count' : Nat}
    (same : program.sameExpr (φ.node count offset) (ψ.node count' place) = true)
    (bindings : Bindings) : φ.value bindings = ψ.value bindings := by
  obtain ⟨φ', offset', ⟨isAtφ', legibleφ'⟩, spanφ, valueφ⟩ := exists_span_node isAtφ legibleφ count
  obtain ⟨ψ', place', ⟨isAtψ', legibleψ'⟩, spanψ, valueψ⟩ := exists_span_node isAtψ legibleψ count'
  rw [Program.sameExpr, spanφ, spanψ, isAtφ'.tokensIn_eq spells, isAtψ'.tokensIn_eq spells] at same
  have calm := legibleψ'.chain.imp fun _ _ meets => meets.calm
  rw [← valueφ, ← valueψ]
  exact Phrase.value_eq_of_forall₂ ⟨legibleφ'.grouped, legibleψ'.grouped⟩ calm
    (Piece.forall₂_of_sameRow same) bindings

end Tokens

end Phrase

end TidyScript
