import TidyScript.Proofs.Phrase.Rooting
import TidyScript.Proofs.Phrase.Row
import TidyScript.Proofs.Text.Answer

/-!
# Reading the text of a phrase by itself

A legible phrase can be read wherever it stands, and so also when nothing stands around it. The
tree that is read then has the form of the tree at its place in a program: the two differ in marks
only, and in the parentheses around the whole. So the text of a plain expression of a program, cut
out and read by itself, is the same expression again.
-/

namespace TidyScript

open Grammar

/-- At the end, a single expression is complete. -/
theorem Grammar.readSingleExpression_of_ends {state behind : State} {value : Expr Mark}
    (run : expression (Productions.upTo (state.rest.length + 1)) state = .ok value behind)
    (ends : behind.current.kind = .eof) : ∃ mark, readSingleExpression state =
      .ok (value, .expression mark value) (behind.growStmt (.expression mark value)) := by
  have first : readExpression state = .ok value behind := by
    simp only [readExpression, productions, bind_eq_ok, get_eq_ok, pure_eq_ok]
    exact ⟨_, _, ⟨_, _, ⟨rfl, rfl⟩, rfl, rfl⟩, run⟩
  have bare : eatPunct ";" behind = .ok false behind :=
    eatPunct_eq_ok.2 ⟨by simp [Token.isPunct, ends], rfl⟩
  have done : expectEnd behind = .ok () behind := by
    simp only [expectEnd, bind_eq_ok, atEnd_eq_ok]
    exact ⟨true, behind, ⟨by simp [ends], rfl⟩, rfl⟩
  refine ⟨behind.stmtMarkFrom value.outer.start, ?_⟩
  simp only [readSingleExpression, bind_eq_ok, pure_eq_ok, finishStmt_eq_ok]
  exact ⟨_, _, first, _, _, bare, _, _, done, _, _, ⟨rfl, rfl⟩, rfl, rfl⟩

namespace Sentence

theorem parseExpression_of_run {source : String} {row : TokenRow} {state : State} {e : Expr Mark}
    {x : Stmt Mark} (lexed : TokenRow.ofString source = .ok row)
    (run : readSingleExpression (State.ofRow row) = .ok (e, x) state) :
    Program.parseExpression source = .ok (Program.ofState source row state [x], e) := by
  simp only [Program.parseExpression, Program.readTokens, lexed, Except.mapError, bind, Except.bind,
    EStateM.run, run]

/-- A sound sentence without a semicolon is read as a single expression. -/
theorem Sound.parseExpression {s : Sentence} (sound : s.Sound) (bare : s.ending = []) :
    ∃ program, Program.parseExpression s.source = .ok (program, s.node) ∧ s.IsRead program := by
  obtain ⟨row, read, tokens, ends⟩ := sound.exists_row
  have parts : s.pieces = s.phrase.pieces := by rw [pieces, bare, List.append_nil]
  have rest : (State.ofRow row).rest = Piece.tokens 0 s.phrase.pieces := by
    rw [← parts]
    exact tokens
  have ahead : s.phrase.Ahead 0 [] (State.ofRow row) := by
    refine ⟨by rw [rest, List.append_nil], rfl, ?_, ?_⟩
    · rw [rest, ← parts]
      exact sound.quiet ends
    · simp [State.ofRow, Token.isFollower, ends]
  have deep : s.phrase.pieces.length ≤ (State.ofRow row).rest.length + 1 := by
    rw [rest, Piece.tokens_length]
    exact Nat.le_succ _
  have value := sound.grouped.reads.whole _ deep ahead (.of_eof ends)
  have stops : (s.phrase.behind 0 [] (State.ofRow row)).current.kind = .eof :=
    (congrArg Token.kind (Phrase.current_behind ..)).trans ends
  obtain ⟨mark, run⟩ := readSingleExpression_of_ends value stops
  refine ⟨_, parseExpression_of_run read run, rfl, ?_, ?_, ⟨mark, rfl, rfl⟩, rfl⟩
  · exact congrArg List.toArray tokens
  · exact Array.empty_append ..

end Sentence

namespace Phrase

/-- The sentence that is nothing but the text of a phrase. -/
def slice (φ : Phrase) : Sentence :=
  ⟨φ.led [], [], []⟩

theorem source_slice (φ : Phrase) : φ.slice.source = String.ofList φ.text := by
  have written := (φ.led []).flatMap_chars
  rw [first_led, text_led] at written
  simp only [Sentence.source, Sentence.pieces, slice, Piece.render, List.append_nil, written]
  rfl

theorem Legible.sound_slice {φ : Phrase} (legible : φ.Legible) : φ.slice.Sound :=
  (legible.led .nil).sound ⟨false, [], [], .nil, rfl, .inl rfl⟩

/-- **The text of a legible phrase is read as the phrase.** -/
theorem Legible.parseExpression {φ : Phrase} (legible : φ.Legible) :
    ∃ program, Program.parseExpression (String.ofList φ.text) = .ok (program, φ.slice.node) ∧
      φ.slice.IsRead program := by
  rw [← source_slice]
  exact legible.sound_slice.parseExpression rfl

end Phrase

/-! ## Trees of the same form -/

namespace Expr

mutual

/-- The trees of two plain expressions have the same form: their nodes are of the same kinds, with
the same operators, names and literals, and the same operands stand in parentheses. Where they
stand and what stands around the whole does not matter. -/
inductive SameForm : Expr Mark → Expr Mark → Prop where
  | identifier (mark mark' : Mark) (name : String) :
      SameForm (.identifier mark name) (.identifier mark' name)
  | literal (mark mark' : Mark) (value : Literal) :
      SameForm (.literal mark value) (.literal mark' value)
  | unary (mark mark' : Mark) (op : UnaryOp) {a a' : Expr Mark} (argument : SameOperands [a] [a']) :
      SameForm (.unary mark op a) (.unary mark' op a')
  | binary (mark mark' : Mark) (op : BinaryOp) {a b a' b' : Expr Mark}
      (operands : SameOperands [a, b] [a', b']) :
      SameForm (.binary mark op a b) (.binary mark' op a' b')
  | logical (mark mark' : Mark) (op : LogicalOp) {a b a' b' : Expr Mark}
      (operands : SameOperands [a, b] [a', b']) :
      SameForm (.logical mark op a b) (.logical mark' op a' b')
  | conditional (mark mark' : Mark) {a b c a' b' c' : Expr Mark}
      (operands : SameOperands [a, b, c] [a', b', c']) :
      SameForm (.conditional mark a b c) (.conditional mark' a' b' c')
  | sequence (mark mark' : Mark) {items items' : List (Expr Mark)}
      (operands : SameOperands items items') :
      SameForm (.sequence mark items) (.sequence mark' items')

/-- The operands have the same form one by one, and the same ones stand in parentheses. -/
inductive SameOperands : List (Expr Mark) → List (Expr Mark) → Prop where
  | nil : SameOperands [] []
  | cons {a a' : Expr Mark} {others others' : List (Expr Mark)} (first : SameForm a a')
      (parens : a.isParenthesized = a'.isParenthesized) (rest : SameOperands others others') :
      SameOperands (a :: others) (a' :: others')

end

theorem SameForm.withMark {e e' : Expr Mark} (same : SameForm e e') (mark mark' : Mark) :
    SameForm (e.withMark mark) (e'.withMark mark') := by
  cases same with
  | identifier _ _ name => exact .identifier mark mark' name
  | literal _ _ value => exact .literal mark mark' value
  | unary _ _ op argument => exact .unary mark mark' op argument
  | binary _ _ op operands => exact .binary mark mark' op operands
  | logical _ _ op operands => exact .logical mark mark' op operands
  | conditional _ _ operands => exact .conditional mark mark' operands
  | sequence _ _ operands => exact .sequence mark mark' operands

theorem SameOperands.joinRow {items items' : List (Expr Mark)} (same : SameOperands items items')
    (mark mark' : Mark) : SameForm (Phrase.joinRow mark items) (Phrase.joinRow mark' items') := by
  cases same with
  | nil => exact .sequence mark mark' .nil
  | cons first parens rest =>
    cases rest with
    | nil => exact first
    | cons second parens' others =>
      exact .sequence mark mark' (.cons first parens (.cons second parens' others))

end Expr

open TidyScript.Expr (SameForm SameOperands)

theorem Piece.sameForm_leaf {p : Piece} (operand : p.isOperand = true) (mark mark' : Mark) :
    SameForm (p.leaf mark) (p.leaf mark') := by
  unfold isOperand Token.isOperand at operand
  unfold leaf atom?
  split at operand
  · next kind => rw [kind]; exact .identifier ..
  · next kind => rw [kind]; exact .literal ..
  · next kind => rw [kind]; exact .literal ..
  · next kind =>
    rw [kind]
    simp only [List.contains_iff_mem, List.mem_cons, List.not_mem_nil, or_false] at operand
    rcases operand with text | text | text <;> rw [text] <;> exact .literal ..
  · cases operand

theorem Grammar.Infix.sameForm_build (op : Infix) (mark mark' : Mark) {a b a' b' : Expr Mark}
    (operands : SameOperands [a, b] [a', b']) :
    SameForm (op.build a b mark) (op.build a' b' mark') := by
  cases op with
  | binary op => exact .binary mark mark' op operands
  | logical op => exact .logical mark mark' op operands

namespace Phrase

theorem isParenthesized_node {φ : Phrase} (grouped : φ.Grouped) (count offset : Nat) :
    (φ.node count offset).isParenthesized = φ.isGroup := by
  cases group : φ.isGroup with
  | false => exact isParenthesized_of_not_isGroup group
  | true =>
    cases φ with
    | group left inner right => exact isParenthesized_group grouped count offset
    | _ => cases group

section SameForm

variable {φ ψ : Phrase} {count offset count' offset' : Nat} {others others' : List (Expr Mark)}

theorem Same.isGroup_eq (same : φ.Same ψ) : ψ.isGroup = φ.isGroup := by
  cases same <;> rfl

theorem Same.isRow_eq (same : φ.Same ψ) : ψ.isRow = φ.isRow := by
  cases same <;> rfl

/-- The phrases as operands. -/
theorem Same.operands (same : φ.Same ψ) (grouped : φ.Grouped)
    (items : SameOperands (φ.items count offset) (ψ.items count' offset'))
    (rest : SameOperands others others') :
    SameOperands (φ.node count offset :: others) (ψ.node count' offset' :: others') := by
  refine .cons (items.joinRow _ _) ?_ rest
  rw [isParenthesized_node grouped, isParenthesized_node (same.grouped grouped), same.isGroup_eq]

theorem Same.items_of_node (same : φ.Same ψ) (grouped : φ.Grouped) (single : φ.isRow = false)
    (node : SameForm (φ.node count offset) (ψ.node count' offset')) :
    SameOperands (φ.items count offset) (ψ.items count' offset') := by
  rw [items_of_not_isRow _ _ single, items_of_not_isRow _ _ (same.isRow_eq.trans single)]
  refine .cons node ?_ .nil
  rw [isParenthesized_node grouped, isParenthesized_node (same.grouped grouped), same.isGroup_eq]

/-- **Phrases that say the same have trees of the same form**, wherever they stand. -/
theorem Same.sameOperands (same : φ.Same ψ) (grouped : φ.Grouped) :
    SameOperands (φ.items count offset) (ψ.items count' offset') := by
  induction same generalizing count offset count' offset' with
  | atom words =>
    refine (Same.atom words).items_of_node grouped rfl ?_
    rw [node_atom, node_atom, ← words.leaf_eq]
    exact Piece.sameForm_leaf grouped _ _
  | group signs same ih =>
    refine (Same.group signs same).items_of_node grouped rfl (SameForm.withMark ?_ _ _)
    exact (ih grouped.2.1).joinRow _ _
  | signed signs same ih =>
    obtain ⟨_, inside, _⟩ := id grouped
    refine (Same.signed signs same).items_of_node grouped rfl (.unary _ _ _ ?_)
    exact same.operands inside (ih inside) .nil
  | linked signs left right ihLeft ihRight =>
    obtain ⟨_, ⟨groupedLeft, _⟩, groupedRight, _⟩ := id grouped
    refine (Same.linked signs left right).items_of_node grouped rfl (Infix.sameForm_build _ _ _ ?_)
    exact left.operands groupedLeft (ihLeft groupedLeft)
      (right.operands groupedRight (ihRight groupedRight) .nil)
  | choice signs test yes no ihTest ihYes ihNo =>
    obtain ⟨_, ⟨groupedTest, _⟩, ⟨groupedYes, _⟩, groupedNo, _⟩ := id grouped
    refine (Same.choice signs test yes no).items_of_node grouped rfl (.conditional _ _ ?_)
    exact test.operands groupedTest (ihTest groupedTest) (yes.operands groupedYes (ihYes groupedYes)
      (no.operands groupedNo (ihNo groupedNo) .nil))
  | comma _ front _ ihFront ihRest =>
    obtain ⟨_, ⟨groupedFront, _⟩, groupedRest⟩ := grouped
    exact front.operands groupedFront (ihFront groupedFront) (ihRest groupedRest)

theorem Same.sameForm (same : φ.Same ψ) (grouped : φ.Grouped) :
    SameForm (φ.node count offset) (ψ.node count' offset') :=
  (same.sameOperands grouped).joinRow _ _

end SameForm

/-- The tree of a phrase, in any parentheses, has the form of what is read from its text. -/
theorem Grouped.sameForm_slice {φ : Phrase} (grouped : φ.Grouped) (outer : Span)
    (count offset : Nat) :
    SameForm (φ.enclosed outer count offset) φ.slice.node := by
  have same : SameForm (φ.node count offset) φ.slice.node := (φ.same_led []).sameForm grouped
  rw [enclosed, ← φ.slice.node.withMark_mark]
  exact same.withMark _ _

end Phrase

namespace Program

/-- Does the source hold a plain expression of the kind that is asked for? -/
def holdsPlain (source : String) (asked : Program → Expr Mark → Bool) : Bool :=
  (parse source).toOption.any fun program => program.exprs.any fun e =>
    program.isPlain e && asked program e

theorem exists_of_holdsPlain {source : String} {asked : Program → Expr Mark → Bool}
    (holds : holdsPlain source asked = true) : ∃ program e, parse source = .ok program ∧
      (e ∈ program.exprs ∧ program.isPlain e = true) ∧ asked program e = true := by
  obtain ⟨program, read, found⟩ := exists_ok_of_any holds
  obtain ⟨e, mem, found⟩ := Array.any_eq_true'.1 found
  rw [Bool.and_eq_true] at found
  exact ⟨program, e, read, ⟨mem, found.1⟩, found.2⟩

/-- **The text of a plain expression is read as a tree of the same form**, wherever in a program
the expression stands. -/
theorem exists_sameForm_of_exprText {source : String} {program : Program} {e : Expr Mark}
    (read : parse source = .ok program ∨ ∃ root, parseExpression source = .ok (program, root))
    (mem : e ∈ program.exprs) (plain : program.isPlain e = true) :
    ∃ text program' root, program.exprText e = .ok text ∧
      parseExpression text = .ok (program', root) ∧ SameForm e root := by
  obtain ⟨row, spells, spelled⟩ := exists_stands read
  obtain ⟨φ, offset, count, outer, ⟨stands, bare⟩, rfl⟩ := spelled e mem plain
  obtain ⟨program', again, _⟩ := stands.neat.legible.parseExpression
  refine ⟨_, program', _, ?_, again, stands.grouped.sameForm_slice outer count offset⟩
  rw [exprText, Phrase.span_enclosed, Phrase.span_node_of_not_isGroup bare]
  exact stands.isAt.text_eq spells

/-- In the head of a loop, in parentheses that let an `in` stand there. -/
theorem exists_sameForm_of_exprText_head : ∃ program e,
    parse "for (k = (-1 + x in ys ? !(a , 'b') : \n c ?? 0x1F); ; ) ;" = .ok program ∧
      (e ∈ program.exprs ∧ program.isPlain e = true) ∧
        program.exprText e = .ok "-1 + x in ys ? !(a , 'b') : \n c ?? 0x1F" ∧
          ∃ text program' root, program.exprText e = .ok text ∧
            parseExpression text = .ok (program', root) ∧ SameForm e root := by
  have holds : holdsPlain "for (k = (-1 + x in ys ? !(a , 'b') : \n c ?? 0x1F); ; ) ;"
      (fun program e => (program.exprText e).toOption =
        some "-1 + x in ys ? !(a , 'b') : \n c ?? 0x1F") = true := by decide +kernel
  obtain ⟨program, e, read, ⟨mem, plain⟩, text⟩ := exists_of_holdsPlain holds
  exact ⟨program, e, read, ⟨mem, plain⟩, eq_ok_of_toOption (of_decide_eq_true text),
    exists_sameForm_of_exprText (.inl read) mem plain⟩

end Program

end TidyScript
