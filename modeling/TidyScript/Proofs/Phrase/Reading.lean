import TidyScript.Proofs.Phrase.Basic

/-!
# Every grouped phrase is read

A grouped phrase is read as its node, in front of any token that can stand behind an operand
and does not bind into it. The reading of a phrase is put together from the readings of its
parts, on the level of the grammar that its strength asks for.
-/

namespace TidyScript

open Grammar

namespace Phrase

variable {φ : Phrase} {state : State} {more : List Token} {offset : Nat}

/-! ## The state behind a phrase -/

theorem setIfInBounds_append_toArray {α : Type} (before : Array α) (list : List α) (x y : α) :
    (before ++ (list ++ [x]).toArray).setIfInBounds (before.size + list.length) y =
      before ++ (list ++ [y]).toArray := by
  apply Array.ext'
  simp

/-- The state behind a phrase that starts at an offset, with `more` still to be read. -/
def behind (φ : Phrase) (offset : Nat) (more : List Token) (state : State) : State :=
  { state with
    rest := more
    lastEnd := offset + φ.bytes
    exprs := state.exprs ++ (φ.nodes state.exprs.size offset).toArray }

/-- The state behind the phrase, before its node is completed. -/
def unfinished (φ : Phrase) (offset : Nat) (more : List Token) (state : State) : State :=
  { state with
    rest := more
    lastEnd := offset + φ.bytes
    exprs := state.exprs ++ (φ.node state.exprs.size offset).descendants.toArray }

/-- The state behind the items of a phrase. -/
def behindItems (φ : Phrase) (offset : Nat) (more : List Token) (state : State) : State :=
  { state with
    rest := more
    lastEnd := offset + φ.bytes
    exprs := state.exprs ++ (Expr.completed (φ.items state.exprs.size offset)).toArray }

/-- The phrase comes next in a quiet row, in front of a token that can stand behind it. -/
structure Ahead (φ : Phrase) (offset : Nat) (more : List Token) (state : State) : Prop where
  rest : state.rest = Piece.tokens offset φ.pieces ++ more
  mode : state.noIn = false
  quiet : Token.Quiet state.stop state.rest
  follows : (more.headD state.stop).isFollower = true

theorem markFrom_unfinished (φ : Phrase) (offset : Nat) (more : List Token) (state : State) :
    (φ.unfinished offset more state).markFrom (offset + Text.byteLength φ.first.gap) =
      φ.mark state.exprs.size offset := by
  simp [State.markFrom, unfinished, mark, span, length_descendants_node]

theorem grow_unfinished (φ : Phrase) (offset : Nat) (more : List Token) (state : State) :
    (φ.unfinished offset more state).grow (φ.node state.exprs.size offset) =
      φ.behind offset more state := by
  simp [State.grow, unfinished, behind, nodes]

theorem current_behind (φ : Phrase) (offset : Nat) (more : List Token) (state : State) :
    (φ.behind offset more state).current = more.headD state.stop := by
  cases more <;> rfl

/-- There is a level below one that is deep enough for a phrase. -/
theorem exists_below {depth : Nat} (deep : φ.pieces.length ≤ depth) : ∃ below, depth = below + 1 :=
  Nat.exists_eq_add_one.2 (Nat.lt_of_lt_of_le φ.length_pieces_pos deep)

/-! ## Operands -/

section Operands

variable {p : Productions} {middle : State} {e : Expr Mark}

/-- An operand with a follower behind it has no members and no calls. -/
theorem chain_of_primary (noNew : state.current.isKeyword "new" = false)
    (operand : primary p state = .ok e middle) (follows : middle.current.isFollower = true) :
    chain p state = .ok e middle := by
  refine chain_eq_ok.2 ⟨e, middle, by simpa [noNew] using operand, ?_⟩
  exact extendUpTo_succ.2 (.inl ⟨chainLink_eq_none.2
    ⟨Token.continuesChain_of_isFollower follows, rfl⟩, rfl⟩)

theorem unary_of_primary (noSign : state.unaryAhead? = none)
    (noUpdate : isUpdate state.current = false) (noNew : state.current.isKeyword "new" = false)
    (operand : primary p state = .ok e middle) (follows : middle.current.isFollower = true) :
    unary p state = .ok e middle := by
  refine unary_eq_ok.2 (.inr (.inr ⟨noSign, noUpdate, e, middle, ?_, ?_⟩))
  · exact chain_of_primary noNew operand follows
  · rw [if_neg (by simp [Token.isUpdate_eq_false_of_isFollower follows])]
    exact ⟨rfl, rfl⟩

end Operands

/-! ## Levels of the grammar -/

/-- The phrase is read as an operand with the operators in front of it. -/
def ReadsUnary (φ : Phrase) : Prop :=
  ∀ (depth : Nat) {state : State} {offset : Nat} {more : List Token}, φ.pieces.length ≤ depth →
    φ.Ahead offset more state →
      unary (Productions.upTo depth) state =
        .ok (φ.node state.exprs.size offset) (φ.behind offset more state)

theorem Ahead.current (ahead : φ.Ahead offset more state) :
    state.current = φ.first.token offset := by
  obtain ⟨others, parts⟩ := φ.pieces_eq_cons
  rw [State.current, State.peek, ahead.rest, parts]
  rfl

theorem Ahead.next {φ : Phrase} {offset : Nat} {more others : List Token} {state : State}
    (ahead : φ.Ahead offset more state)
    (parts : Piece.tokens offset φ.pieces ++ more = φ.first.token offset :: others) :
    state.next = { state with rest := others, lastEnd := offset + φ.first.bytes } := by
  rw [State.next, ahead.rest, parts]
  rfl

theorem readsUnary_atom {word : Piece} (grouped : (atom word).Grouped) :
    ReadsUnary (atom word) := by
  intro depth state offset more deep ahead
  have isOperand : word.isOperand = true := grouped
  have here : state.current = word.token offset := ahead.current
  have next := @Ahead.next _ _ _ more _ ahead rfl
  have calm : Token.Calm state.current (state.peek 1) :=
    State.calm_current ahead.quiet (by rw [ahead.rest]; simp [pieces])
  obtain ⟨build, found⟩ := Option.isSome_iff_exists.1 (Piece.isSome_atom? isOperand)
  refine unary_of_primary ?_ ?_ ?_ ?_ ?_
  · exact State.unaryAhead?_eq_none (here ▸ isOperand) calm
  · exact Token.isUpdate_eq_false_of_isOperand (here ▸ isOperand)
  · exact Token.isKeyword_eq_false_of_isOperand (here ▸ isOperand) (by decide)
  · refine primary_eq_ok.2 (.inr (.inl ⟨State.asyncFunctionAhead_eq_false ahead.quiet, build, ?_⟩))
    rw [here, next]
    refine ⟨found, ?_, ?_⟩
    · simp only [node_atom, Piece.leaf, found, Option.getD_some, mark, span, bytes_atom, first, inside]
      rfl
    · simp only [State.grow, behind, nodes, node_atom, Piece.descendants_leaf, bytes_atom, first,
        List.nil_append, Array.push_eq_append]
  · rw [current_behind]
    exact ahead.follows

theorem size_behind (φ : Phrase) (offset : Nat) (more : List Token) (state : State) :
    (φ.behind offset more state).next.exprs.size = state.exprs.size + (φ.inside + 1) := by
  rw [State.exprs_next]
  simp [behind, length_nodes]

theorem Ahead.of_next {φ ψ : Phrase} {offset offset' : Nat} {more more' : List Token}
    (ahead : φ.Ahead offset more state) {others : List Token}
    (parts : Piece.tokens offset φ.pieces ++ more = φ.first.token offset :: others)
    (inner : others = Piece.tokens offset' ψ.pieces ++ more')
    (follows : (more'.headD state.stop).isFollower = true) : ψ.Ahead offset' more' state.next where
  rest := by rw [ahead.next parts, inner]
  mode := by rw [ahead.next parts]; exact ahead.mode
  quiet := by
    rw [ahead.next parts]
    refine Token.Quiet.right [φ.first.token offset] ?_
    rw [List.singleton_append, ← parts, ← ahead.rest]
    exact ahead.quiet
  follows := by rw [ahead.next parts]; exact follows

theorem readsUnary_signed {sign : Piece} {op : UnaryOp} {operand : Phrase}
    (grouped : (signed sign op operand).Grouped) (reads : ReadsUnary operand) :
    ReadsUnary (signed sign op operand) := by
  intro depth state offset more deep ahead
  obtain ⟨⟨isSign, _⟩, _⟩ := grouped
  have here : state.current = sign.token offset := ahead.current
  have parts : Piece.tokens offset (signed sign op operand).pieces ++ more =
      sign.token offset :: (Piece.tokens (offset + sign.bytes) operand.pieces ++ more) := rfl
  have inner : operand.Ahead (offset + sign.bytes) more state.next :=
    ahead.of_next parts rfl ahead.follows
  obtain ⟨depth, rfl⟩ := exists_below deep
  have read := reads depth (by simpa [pieces] using deep) inner
  have same : operand.behind (offset + sign.bytes) more state.next =
      (signed sign op operand).unfinished offset more state := by
    rw [ahead.next parts]
    simp only [behind, unfinished, nodes, node_signed, Expr.descendants, bytes_signed, Nat.add_assoc]
  rw [same, State.exprs_next] at read
  refine unary_eq_ok.2 (.inl ⟨op, _, _, State.unaryAhead?_eq_some (here ▸ isSign), read, ?_, ?_⟩)
  · have mark := markFrom_unfinished (signed sign op operand) offset more state
    rw [here, node_signed, ← mark]
    rfl
  · exact grow_unfinished ..

/-- The phrase is read as the operand that the operators behind it are added to. -/
def ReadsBinary (φ : Phrase) : Prop :=
  ∀ (depth least : Nat) {state : State} {offset : Nat} {more : List Token},
    φ.pieces.length ≤ depth → φ.Ahead offset more state → least + 2 ≤ φ.rank →
      Token.Loose φ.hold (more.headD state.stop) →
        ∃ bound, more.length < bound ∧ ∀ {e : Expr Mark} {state' : State},
          extendUpTo (binaryLink (Productions.upTo depth) least) bound
            (φ.node state.exprs.size offset) (φ.behind offset more state) = .ok e state' →
          binary (Productions.upTo depth) least state = .ok e state'

theorem ReadsUnary.readsBinary (reads : ReadsUnary φ) : ReadsBinary φ := by
  intro depth least state offset more deep ahead _ _
  exact ⟨more.length + 1, Nat.lt_succ_self _, fun run =>
    binary_eq_ok.2 ⟨_, _, reads depth deep ahead, run⟩⟩

/-- With no operator behind it that binds into it, the phrase is read alone. -/
theorem ReadsBinary.alone (reads : ReadsBinary φ) (depth least : Nat)
    (deep : φ.pieces.length ≤ depth) (ahead : φ.Ahead offset more state)
    (tight : least + 2 ≤ φ.rank) (loose : Token.Loose least (more.headD state.stop)) :
    binary (Productions.upTo depth) least state =
      .ok (φ.node state.exprs.size offset) (φ.behind offset more state) := by
  obtain ⟨bound, enough, run⟩ := reads depth least deep ahead tight
    fun op sign => lt_hold_of_add_two_le_rank (loose op sign) tight
  obtain ⟨bound, rfl⟩ := Nat.exists_eq_add_one.2 (show 0 < bound by omega)
  refine run (extendUpTo_succ.2 (.inl ⟨binaryLink_eq_none.2 ⟨rfl, ?_⟩, rfl⟩))
  rw [current_behind]
  show ∀ op, Infix.ofToken? state.noIn _ = some op → _
  rw [ahead.mode]
  exact loose

/-- Behind a phrase and a sign, another phrase is ahead. -/
theorem ahead_behind {φ ψ : Phrase} {sign : Token} {offset offset' : Nat}
    (mode : state.noIn = false) (quiet : Token.Quiet state.stop state.rest)
    (parts : state.rest =
      Piece.tokens offset φ.pieces ++ sign :: (Piece.tokens offset' ψ.pieces ++ more))
    (follows : (more.headD state.stop).isFollower = true) :
    ψ.Ahead offset' more
      (φ.behind offset (sign :: (Piece.tokens offset' ψ.pieces ++ more)) state).next where
  rest := rfl
  mode := mode
  quiet := by
    refine Token.Quiet.right (Piece.tokens offset φ.pieces ++ [sign]) ?_
    rw [List.append_assoc]
    rw [parts] at quiet
    exact quiet
  follows := follows

theorem readsBinary_linked {op : Infix} {left : Phrase} {sign : Piece} {right : Phrase}
    (grouped : (linked op left sign right).Grouped) (readsLeft : ReadsBinary left)
    (readsRight : ReadsBinary right) : ReadsBinary (linked op left sign right) := by
  intro depth least state offset more deep ahead tight loose
  obtain ⟨isSign, ⟨_, holds⟩, _, tightRight⟩ := grouped
  have loose : Token.Loose op.rightLeast (more.headD state.stop) := loose
  rw [rank_linked] at tight
  have follows : (sign.token (offset + left.bytes)).isFollower = true :=
    @Token.isFollower_of_ofToken? _ op isSign
  let offset' := offset + left.bytes + sign.bytes
  let behindSign := Piece.tokens offset' right.pieces ++ more
  let middle := left.behind offset (sign.token (offset + left.bytes) :: behindSign) state
  have parts : state.rest =
      Piece.tokens offset left.pieces ++ sign.token (offset + left.bytes) :: behindSign := by
    rw [ahead.rest]
    simp [pieces, Piece.tokens_append, bytes, behindSign, offset']
  have aheadLeft : left.Ahead offset (sign.token (offset + left.bytes) :: behindSign) state :=
    ⟨parts, ahead.mode, ahead.quiet, follows⟩
  obtain ⟨bound, enough, run⟩ := readsLeft depth least
    (by simp only [pieces, List.length_append] at deep; omega) aheadLeft
    (by have := power_add_two_le_rank holds; omega)
    (fun other same => by cases isSign.symm.trans same; exact holds)
  obtain ⟨bound, rfl⟩ := Nat.exists_eq_add_one.2 (show 0 < bound by omega)
  obtain ⟨depth, rfl⟩ := exists_below deep
  have aheadRight : right.Ahead offset' more middle.next :=
    ahead_behind ahead.mode ahead.quiet parts ahead.follows
  have read := readsRight.alone depth op.rightLeast
    (by simp only [pieces, List.length_append, List.length_cons] at deep; omega) aheadRight
    tightRight loose
  have same : right.behind offset' more middle.next =
      (linked op left sign right).unfinished offset more state := by
    rw [behind, size_behind, unfinished, node_linked, Infix.descendants_build]
    simp [middle, behind, State.next, nodes, bytes_linked, offset', Nat.add_assoc]
  rw [same, size_behind] at read
  refine ⟨bound, by simp [behindSign] at enough; omega, fun rest => run (extendUpTo_succ.2
    (.inr ⟨_, _, binaryLink_eq_some.2 ⟨op, _, _, ?_, by omega, read, ?_, ?_⟩, rest⟩))⟩
  · show Infix.ofToken? state.noIn (sign.token (offset + left.bytes)) = some op
    rw [ahead.mode]
    exact isSign
  · have mark := markFrom_unfinished (linked op left sign right) offset more state
    rw [outer_node, node_linked, ← mark]
    rfl
  · exact grow_unfinished ..

theorem Grouped.isKeyword_first (grouped : φ.Grouped) {text : String}
    (noOperand : text ∉ ["null", "true", "false"]) (noSign : UnaryOp.ofText? text = none)
    (offset : Nat) : (φ.first.token offset).isKeyword text = false := by
  rcases grouped.first_cases with operand | opens | ⟨op, sign, _⟩
  · exact Token.isKeyword_eq_false_of_isOperand operand noOperand
  · exact Token.isKeyword_eq_false_of_isPunct opens text
  · exact Token.isKeyword_eq_false_of_signOp? sign noSign

/-- The phrase is read as an assignment, or what could stand for one. -/
def ReadsAssignment (φ : Phrase) : Prop :=
  ∀ (depth : Nat) {state : State} {offset : Nat} {more : List Token}, φ.pieces.length ≤ depth →
    φ.Ahead offset more state → Token.Loose 0 (more.headD state.stop) →
      (more.headD state.stop).isPunct "?" = false →
        assignment (Productions.upTo depth) state =
          .ok (φ.node state.exprs.size offset) (φ.behind offset more state)

/-- What is read as a conditional is read as an assignment. -/
theorem assignment_of_conditional (grouped : φ.Grouped) {p : Productions}
    (ahead : φ.Ahead offset more state)
    (read : conditional p state =
      .ok (φ.node state.exprs.size offset) (φ.behind offset more state)) :
    assignment p state = .ok (φ.node state.exprs.size offset) (φ.behind offset more state) := by
  refine assignment_eq_ok.2 (.inr (.inr ⟨State.arrowAhead_eq_false ahead.quiet, ?_, _, _, read, ?_⟩))
  · rw [ahead.current]
    exact grouped.isKeyword_first (by decide) (by decide) offset
  · rw [current_behind, Token.not_assigns_of_isFollower ahead.follows, if_neg Bool.false_ne_true]
    exact ⟨rfl, rfl⟩

theorem ReadsBinary.readsAssignment (grouped : φ.Grouped) (tight : 3 ≤ φ.rank)
    (reads : ReadsBinary φ) : ReadsAssignment φ := by
  intro depth state offset more deep ahead loose noQuestion
  refine assignment_of_conditional grouped ahead ?_
  have read := reads.alone depth 0 deep ahead (Nat.le_of_succ_le tight) loose
  exact conditional_eq_ok.2 ⟨_, _, read, .inl ⟨by rw [current_behind]; exact noQuestion, rfl, rfl⟩⟩

theorem inMode_eq_self {noIn : Bool} (mode : state.noIn = noIn) : state.inMode noIn = state := by
  rw [← mode]
  rfl

theorem loose_of_isPunct {token : Token} {text : String} (isText : token.isPunct text = true)
    (noLogical : LogicalOp.ofText? text = none) (noBinary : BinaryOp.ofText? text = none)
    (least : Nat) : Token.Loose least token := by
  intro op sign
  rw [Token.ofToken?_eq_none_of_isPunct isText noLogical noBinary] at sign
  cases sign

theorem isFollower_of_isPunct {token : Token} {text : String} (isText : token.isPunct text = true)
    (mem : text ∈ Token.followers) : token.isFollower = true := by
  simp only [Token.isPunct, Bool.and_eq_true, decide_eq_true_eq] at isText
  simp [Token.isFollower, isText, mem]

theorem isPunct_ne {token : Token} {text other : String} (isText : token.isPunct text = true)
    (ne : text ≠ other) : token.isPunct other = false := by
  simp only [Token.isPunct, Bool.and_eq_true, decide_eq_true_eq] at isText
  simp [Token.isPunct, isText, ne]

theorem readsAssignment_choice {test : Phrase} {mark : Piece} {yes : Phrase} {colon : Piece}
    {no : Phrase} (grouped : (choice test mark yes colon no).Grouped) (readsTest : ReadsBinary test)
    (readsYes : ReadsAssignment yes) (readsNo : ReadsAssignment no) :
    ReadsAssignment (choice test mark yes colon no) := by
  intro depth state offset more deep ahead loose noQuestion
  refine assignment_of_conditional grouped ahead ?_
  obtain ⟨⟨isMark, isColon⟩, ⟨_, tight⟩, _, _⟩ := grouped
  obtain ⟨depth, rfl⟩ := exists_below deep
  simp only [pieces, List.length_append, List.length_cons] at deep
  -- The three operands and the signs between them, each at its place.
  let offset₁ := offset + test.bytes + mark.bytes
  let offset₂ := offset₁ + yes.bytes + colon.bytes
  let behindColon := Piece.tokens offset₂ no.pieces ++ more
  let behindMark := Piece.tokens offset₁ yes.pieces ++ colon.token (offset₁ + yes.bytes) :: behindColon
  let afterTest := test.behind offset (mark.token (offset + test.bytes) :: behindMark) state
  let afterYes :=
    yes.behind offset₁ (colon.token (offset₁ + yes.bytes) :: behindColon) afterTest.next
  have parts : state.rest =
      Piece.tokens offset test.pieces ++ mark.token (offset + test.bytes) :: behindMark := by
    rw [ahead.rest]
    simp [pieces, Piece.tokens_append, bytes, behindMark, behindColon, offset₁, offset₂]
  have aheadTest : test.Ahead offset (mark.token (offset + test.bytes) :: behindMark) state :=
    ⟨parts, ahead.mode, ahead.quiet, isFollower_of_isPunct isMark (by decide)⟩
  have aheadYes : yes.Ahead offset₁ (colon.token (offset₁ + yes.bytes) :: behindColon)
      afterTest.next :=
    ahead_behind ahead.mode ahead.quiet parts (isFollower_of_isPunct isColon (by decide))
  have aheadNo : no.Ahead offset₂ more afterYes.next :=
    ahead_behind aheadYes.mode aheadYes.quiet aheadYes.rest ahead.follows
  have readTest := readsTest.alone (depth + 1) 0 (by omega) aheadTest (Nat.le_of_succ_le tight)
    (loose_of_isPunct isMark (by decide) (by decide) 0)
  have readYes := readsYes depth (by omega) aheadYes
    (loose_of_isPunct isColon (by decide) (by decide) 0) (isPunct_ne isColon (by decide))
  have readNo := readsNo depth (by omega) aheadNo loose noQuestion
  have size₂ : afterYes.next.exprs.size =
      state.exprs.size + (test.inside + 1) + (yes.inside + 1) := by
    rw [size_behind, size_behind]
  have same : no.behind offset₂ more afterYes.next =
      (choice test mark yes colon no).unfinished offset more state := by
    rw [behind, size₂, unfinished, node_choice, Expr.descendants]
    simp only [afterYes, behind, State.next]
    simp [afterTest, behind, nodes, length_descendants_node, bytes_choice, offset₂, offset₁,
      Nat.add_assoc]
  rw [size_behind] at readYes
  rw [same, size₂] at readNo
  refine conditional_eq_ok.2 ⟨_, _, readTest, .inr ⟨isMark, _, _, _, _,
    (congrArg (assignment (Productions.upTo depth)) (inMode_eq_self aheadYes.mode)).trans readYes,
    isColon, readNo, ?_, grow_unfinished ..⟩⟩
  have mark := markFrom_unfinished (choice test mark yes colon no) offset more state
  rw [outer_node, node_choice, ← mark]
  rfl

/-! ## Rows and groups -/

/-- The token ends a row of phrases. -/
structure EndsRow (token : Token) : Prop where
  loose : Token.Loose 0 token
  noQuestion : token.isPunct "?" = false
  noComma : token.isPunct "," = false

theorem EndsRow.of_eof {token : Token} (ends : token.kind = .eof) : EndsRow token :=
  ⟨fun op sign => by simp [Infix.ofToken?, ends] at sign, by simp [Token.isPunct, ends],
    by simp [Token.isPunct, ends]⟩

/-- Behind a comma, the phrase is read as further items of a row. -/
def ReadsRow (φ : Phrase) : Prop :=
  ∀ (depth bound : Nat) {state : State} {offset : Nat} {more : List Token},
    φ.pieces.length ≤ depth → φ.pieces.length < bound → state.current.isPunct "," = true →
      φ.Ahead offset more state.next → EndsRow (more.headD state.next.stop) →
        manyUpTo (do return !(← eatPunct ",")) (assignment (Productions.upTo depth)) bound state =
          .ok (φ.items state.next.exprs.size offset) (φ.behindItems offset more state.next)

/-- The phrase is read as an expression of any kind. -/
def ReadsWhole (φ : Phrase) : Prop :=
  ∀ (depth : Nat) {state : State} {offset : Nat} {more : List Token}, φ.pieces.length ≤ depth →
    φ.Ahead offset more state → EndsRow (more.headD state.stop) →
      sequence (assignment (Productions.upTo depth)) state =
        .ok (φ.node state.exprs.size offset) (φ.behind offset more state)

theorem ReadsAssignment.readsRow (single : φ.isRow = false)
    (reads : ReadsAssignment φ) : ReadsRow φ := by
  intro depth bound state offset more deep enough comma ahead ends
  obtain ⟨bound, rfl⟩ := Nat.exists_eq_add_one.2 (show 0 < bound by omega)
  obtain ⟨bound, rfl⟩ : ∃ below, bound = below + 1 := ⟨bound - 1, by
    have := φ.length_pieces_pos
    omega⟩
  have read := reads depth deep ahead ends.loose ends.noQuestion
  have stops : (φ.behind offset more state.next).current.isPunct "," = false := by
    rw [current_behind]
    exact ends.noComma
  rw [items_of_not_isRow _ _ single, behindItems, completed_items_of_not_isRow _ _ single]
  refine manyUpTo_succ.2 (.inr ⟨_, _, _, [], noComma_eq_ok.2 ⟨by rw [comma]; rfl, rfl⟩, read, ?_, rfl⟩)
  exact manyUpTo_succ.2 (.inl ⟨noComma_eq_ok.2 ⟨by rw [stops]; rfl, rfl⟩, rfl⟩)

theorem ReadsAssignment.readsWhole (reads : ReadsAssignment φ) : ReadsWhole φ := by
  intro depth state offset more deep ahead ends
  have read := reads depth deep ahead ends.loose ends.noQuestion
  refine sequence_eq_ok.2 ⟨_, _, read, .inl ⟨?_, rfl, rfl⟩⟩
  rw [current_behind]
  exact ends.noComma

/-- The first phrase of a row and the row behind its comma are read one after the other. -/
theorem reads_comma {first : Phrase} {sign : Piece} {rest : Phrase}
    (grouped : (comma first sign rest).Grouped) (readsFirst : ReadsAssignment first)
    (readsRest : ReadsRow rest) {depth : Nat}
    (deep : (comma first sign rest).pieces.length ≤ depth)
    (ahead : (comma first sign rest).Ahead offset more state)
    (ends : EndsRow (more.headD state.stop)) :
    ∃ middle, assignment (Productions.upTo depth) state =
        .ok (first.node state.exprs.size offset) middle ∧
      middle.current.isPunct "," = true ∧ (rest.pieces ++ [sign]).length ≤ middle.rest.length ∧
        ∀ bound, rest.pieces.length < bound →
          manyUpTo (do return !(← eatPunct ",")) (assignment (Productions.upTo depth)) bound middle =
            .ok (rest.items (state.exprs.size + (first.inside + 1))
              (offset + first.bytes + sign.bytes)) ((comma first sign rest).behindItems offset more state) := by
  obtain ⟨isSign, _, _⟩ := grouped
  let offset' := offset + first.bytes + sign.bytes
  let behindSign := Piece.tokens offset' rest.pieces ++ more
  let middle := first.behind offset (sign.token (offset + first.bytes) :: behindSign) state
  simp only [pieces, List.length_append, List.length_cons] at deep
  have parts : state.rest =
      Piece.tokens offset first.pieces ++ sign.token (offset + first.bytes) :: behindSign := by
    rw [ahead.rest]
    simp [pieces, Piece.tokens_append, bytes, behindSign, offset']
  have aheadFirst : first.Ahead offset (sign.token (offset + first.bytes) :: behindSign) state :=
    ⟨parts, ahead.mode, ahead.quiet, isFollower_of_isPunct isSign (by decide)⟩
  have aheadRest : rest.Ahead offset' more middle.next :=
    ahead_behind ahead.mode ahead.quiet parts ahead.follows
  have readFirst := readsFirst depth (by omega) aheadFirst
    (loose_of_isPunct isSign (by decide) (by decide) 0) (isPunct_ne isSign (by decide))
  have same : rest.behindItems offset' more middle.next =
      (comma first sign rest).behindItems offset more state := by
    rw [behindItems, size_behind, behindItems, items_comma, Expr.completed]
    simp [middle, behind, State.next, nodes, bytes_comma, offset', Nat.add_assoc]
  refine ⟨middle, readFirst, isSign, by simp [middle, behind, behindSign], fun bound enough => ?_⟩
  have readRest := @readsRest depth bound middle offset' more (by omega) enough isSign aheadRest ends
  rwa [same, size_behind] at readRest

theorem readsRow_comma {first : Phrase} {sign : Piece} {rest : Phrase}
    (grouped : (comma first sign rest).Grouped) (readsFirst : ReadsAssignment first)
    (readsRest : ReadsRow rest) : ReadsRow (comma first sign rest) := by
  intro depth bound state offset more deep enough comma ahead ends
  obtain ⟨bound, rfl⟩ := Nat.exists_eq_add_one.2 (show 0 < bound by omega)
  obtain ⟨middle, readFirst, _, _, readRest⟩ :=
    reads_comma grouped readsFirst readsRest deep ahead ends
  simp only [pieces, List.length_append, List.length_cons] at enough
  exact manyUpTo_succ.2 (.inr ⟨_, _, middle, _, noComma_eq_ok.2 ⟨by rw [comma]; rfl, rfl⟩, readFirst,
    readRest bound (by omega), rfl⟩)

theorem readsWhole_comma {first : Phrase} {sign : Piece} {rest : Phrase}
    (grouped : (comma first sign rest).Grouped) (readsFirst : ReadsAssignment first)
    (readsRest : ReadsRow rest) : ReadsWhole (comma first sign rest) := by
  intro depth state offset more deep ahead ends
  obtain ⟨middle, readFirst, isComma, enough, readRest⟩ :=
    reads_comma grouped readsFirst readsRest deep ahead ends
  have same : (comma first sign rest).behindItems offset more state =
      (comma first sign rest).unfinished offset more state := by
    rw [behindItems, completed_items_of_isRow _ _ rfl, unfinished]
  rw [List.length_append] at enough
  have loop := readRest (middle.rest.length + 1) (by omega)
  rw [same] at loop
  refine sequence_eq_ok.2 ⟨_, middle, readFirst, .inr ⟨isComma, _, _, loop, ?_, grow_unfinished ..⟩⟩
  have mark := markFrom_unfinished (comma first sign rest) offset more state
  rw [outer_node, node_comma, ← mark]
  rfl

theorem readsUnary_group {left : Piece} {inner : Phrase} {right : Piece}
    (grouped : (group left inner right).Grouped) (reads : ReadsWhole inner) :
    ReadsUnary (group left inner right) := by
  intro depth state offset more deep ahead
  obtain ⟨isLeft, _, isRight⟩ := grouped
  have here : state.current = left.token offset := ahead.current
  have parts : Piece.tokens offset (group left inner right).pieces ++ more =
      left.token offset :: (Piece.tokens (offset + left.bytes) inner.pieces ++
        (right.token (offset + left.bytes + inner.bytes) :: more)) := by
    simp [pieces, Piece.tokens_append, bytes]
  obtain ⟨depth, rfl⟩ := exists_below deep
  simp only [pieces, List.length_append, List.length_cons] at deep
  have aheadInner : inner.Ahead (offset + left.bytes)
      (right.token (offset + left.bytes + inner.bytes) :: more) state.next :=
    ahead.of_next parts rfl (isFollower_of_isPunct isRight (by decide))
  have read := reads depth (by omega) aheadInner
    ⟨loose_of_isPunct isRight (by decide) (by decide) 0, isPunct_ne isRight (by decide),
      isPunct_ne isRight (by decide)⟩
  rw [State.exprs_next] at read
  have isOpen : state.current.isPunct "(" = true := by
    rw [here]
    exact isLeft
  have kind : state.current.kind = .punctuator ∧ state.current.text = "(" := by
    simpa [Token.isPunct] using isOpen
  refine unary_of_primary ?_ ?_ ?_ ?_ ?_
  · rw [State.unaryAhead?]
    simp only [kind]
    decide
  · simp [isUpdate, Token.isPunct, kind]
  · simp [Token.isKeyword, kind]
  · refine primary_eq_ok.2 (.inr (.inr ⟨State.asyncFunctionAhead_eq_false ahead.quiet, ?_, ?_⟩))
    · simp [atom?, kind]
    · rw [compound, if_neg (by simp [Token.isKeyword, kind]), if_neg (by simp [Token.isKeyword, kind]),
        if_pos isOpen]
      refine parenthesized_eq_ok.2 ⟨_, _, (congrArg (sequence (assignment (Productions.upTo depth)))
        (inMode_eq_self aheadInner.mode)).trans read, isRight, ?_, ?_⟩
      · rw [node_group, here]
        simp only [span, bytes_group, first, ← Nat.add_assoc]
        rfl
      · rw [ahead.next parts]
        have index := (group left inner right).index_node state.exprs.size offset
        have place : state.exprs.size + (group left inner right).inside =
            state.exprs.size + (inner.node state.exprs.size (offset + left.bytes)).descendants.length := by
          rw [length_descendants_node]
          rfl
        simp only [State.enclosing, State.next, State.inMode, behind, nodes, index, place,
          setIfInBounds_append_toArray, bytes_group, ← Nat.add_assoc]
        rw [node_group, Expr.descendants_withMark]
        rfl
  · rw [current_behind]
    exact ahead.follows

/-! ## Every grouped phrase -/

/-- The phrase is read on every level of the grammar that its strength allows. -/
structure Reads (φ : Phrase) : Prop where
  unary : 15 ≤ φ.rank → ReadsUnary φ
  binary : 3 ≤ φ.rank → ReadsBinary φ
  assignment : 1 ≤ φ.rank → ReadsAssignment φ
  row : ReadsRow φ
  whole : ReadsWhole φ

theorem Reads.of_assignment (single : φ.isRow = false) (loose : φ.rank < 3)
    (reads : ReadsAssignment φ) : Reads φ where
  unary tight := absurd tight (by omega)
  binary tight := absurd tight (by omega)
  assignment _ := reads
  row := reads.readsRow single
  whole := reads.readsWhole

theorem Reads.of_binary (grouped : φ.Grouped) (single : φ.isRow = false) (tight : 3 ≤ φ.rank)
    (loose : φ.rank < 15) (reads : ReadsBinary φ) : Reads φ where
  unary tight := absurd tight (by omega)
  binary _ := reads
  assignment _ := reads.readsAssignment grouped tight
  row := (reads.readsAssignment grouped tight).readsRow single
  whole := (reads.readsAssignment grouped tight).readsWhole

theorem Reads.of_unary (grouped : φ.Grouped) (single : φ.isRow = false) (tight : 15 ≤ φ.rank)
    (reads : ReadsUnary φ) : Reads φ where
  unary _ := reads
  binary _ := reads.readsBinary
  assignment _ := reads.readsBinary.readsAssignment grouped (Nat.le_trans (by omega) tight)
  row := (reads.readsBinary.readsAssignment grouped (Nat.le_trans (by omega) tight)).readsRow single
  whole := (reads.readsBinary.readsAssignment grouped (Nat.le_trans (by omega) tight)).readsWhole

/-- **Every grouped phrase is read as its node.** -/
theorem Grouped.reads (grouped : φ.Grouped) : Reads φ := by
  induction φ with
  | atom word => exact .of_unary grouped rfl (by simp) (readsUnary_atom grouped)
  | group left inner right ih =>
    exact .of_unary grouped rfl (by simp) (readsUnary_group grouped (ih grouped.2.1).whole)
  | signed sign op operand ih =>
    obtain ⟨_, inner, tight⟩ := id grouped
    exact .of_unary grouped rfl (by simp) (readsUnary_signed grouped ((ih inner).unary tight))
  | linked op left sign right ihLeft ihRight =>
    obtain ⟨_, ⟨groupedLeft, holds⟩, groupedRight, tight⟩ := id grouped
    have := one_le_power op
    have := power_le op
    have := power_le_rightLeast op
    have := power_add_two_le_rank holds
    refine .of_binary grouped rfl ?_ ?_ (readsBinary_linked grouped
      ((ihLeft groupedLeft).binary (by omega)) ((ihRight groupedRight).binary (by omega)))
    all_goals
      rw [rank_linked]
      omega
  | choice test mark yes colon no ihTest ihYes ihNo =>
    obtain ⟨_, ⟨groupedTest, tight⟩, ⟨groupedYes, tightYes⟩, groupedNo, tightNo⟩ := id grouped
    exact .of_assignment rfl (by simp) (readsAssignment_choice grouped
      ((ihTest groupedTest).binary tight) ((ihYes groupedYes).assignment tightYes)
      ((ihNo groupedNo).assignment tightNo))
  | comma first sign rest ihFirst ihRest =>
    obtain ⟨_, ⟨groupedFirst, tight⟩, groupedRest⟩ := id grouped
    have readsFirst := (ihFirst groupedFirst).assignment tight
    have readsRest := (ihRest groupedRest).row
    exact {
      unary := fun tight => absurd tight (by simp)
      binary := fun tight => absurd tight (by simp)
      assignment := fun tight => absurd tight (by simp)
      row := readsRow_comma grouped readsFirst readsRest
      whole := readsWhole_comma grouped readsFirst readsRest }

end Phrase

end TidyScript
