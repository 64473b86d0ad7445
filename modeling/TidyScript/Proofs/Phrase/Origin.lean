import TidyScript.Proofs.Grammar.Yields
import TidyScript.Proofs.Phrase.Reading

/-!
# Every plain node comes from a phrase

When a production reads a plain node from a row of pieces, the pieces it has taken are those
of a grouped phrase, as strong as the production asks for. The productions are gone through
from the inside, with what those one level below find as the hypothesis.
-/

namespace TidyScript

open Grammar

-- productions are long rows of steps
set_option synthInstance.maxSize 1000000000

namespace Phrase

/-- A row of pieces is still to be read. -/
structure Start (offset : Nat) (ps : List Piece) (state : State) : Prop where
  rest : state.rest = Piece.tokens offset ps
  ends : state.stop.kind = .eof

/-- The row is at the front of the pieces `ps` and has been read, and `qs` is still to be read.
No `await` in the row waits for anything. -/
structure Reached (offset : Nat) (ps row qs : List Piece) (state : State) : Prop where
  parts : ps = row ++ qs
  start : Start (offset + Piece.width row) qs state
  calm : List.IsChain Token.Calm (Piece.tokens offset row ++ [state.current])
  last : row ≠ [] → state.lastEnd = offset + Piece.width row

/-- A grouped phrase has been read between two states, as its node. -/
structure Found (φ : Phrase) (offset : Nat) (ps : List Piece) (before : State) (e : Expr Mark)
    (after : State) : Prop where
  grouped : φ.Grouped
  reached : ∃ qs, Reached offset ps φ.pieces qs after
  node : e = φ.node before.exprs.size offset
  count : after.exprs.size = before.exprs.size + (φ.inside + 1)

/-- Where the production reads a plain node, it has read a phrase of at least the given rank. -/
def Finds (parse : Parse (Expr Mark)) (least : Nat) : Prop :=
  ∀ {offset : Nat} {ps : List Piece} {state state' : State} {e : Expr Mark},
    Start offset ps state → parse state = .ok e state' → e.isPlain = true →
      ∃ φ : Phrase, φ.Found offset ps state e state' ∧ least ≤ φ.rank

/-- No operator of the given power or more comes next. -/
def Loose (least : Nat) (state : State) : Prop :=
  ∀ op, Infix.ofToken? state.noIn state.current = some op → op.power < least

/-- A phrase of operators of at least the given power has been read, to which further operators can
be added. -/
structure FoundLink (φ : Phrase) (least offset : Nat) (ps : List Piece) (before : State)
    (e : Expr Mark) (after : State) : Prop extends φ.Found offset ps before e after where
  tight : 3 ≤ φ.rank
  strong : least + 2 ≤ φ.rank
  loose : Loose φ.hold after

/-- Where the production reads a plain node, it has read operators of at least the given power,
and none follows. -/
def FindsAbove (parse : Parse (Expr Mark)) (least : Nat) : Prop :=
  ∀ {offset : Nat} {ps : List Piece} {state state' : State} {e : Expr Mark},
    Start offset ps state → parse state = .ok e state' → e.isPlain = true →
      ∃ φ : Phrase, φ.FoundLink least offset ps state e state' ∧ Loose least state'

/-- The productions that others call find phrases. -/
class AllFind (p : Productions) : Prop where
  unary : Finds p.unary 15
  assignment : Finds p.assignment 1
  binary : ∀ least, least ≤ 13 → FindsAbove (p.binary least) least

section Steps

variable {word : Piece} {offset : Nat} {ps row qs : List Piece} {state : State} {φ : Phrase}

theorem peek_one (state : State) : state.peek 1 = state.next.current := by
  obtain ⟨rest, _⟩ := state
  match rest with
  | [] => rfl
  | [_] => rfl
  | _ :: _ :: _ => rfl

theorem Start.current_cons (start : Start offset (word :: qs) state) :
    state.current = word.token offset := by
  rw [State.current, State.peek, start.rest]
  rfl

theorem Start.next (start : Start offset (word :: qs) state) :
    Start (offset + word.bytes) qs state.next := by
  rw [State.next, start.rest]
  exact ⟨rfl, start.ends⟩

theorem Start.lastEnd_next (start : Start offset (word :: qs) state) :
    state.next.lastEnd = offset + word.bytes := by
  rw [State.next, start.rest]
  rfl

theorem Start.inMode (start : Start offset ps state) (noIn : Bool) :
    Start offset ps (state.inMode noIn) :=
  ⟨start.rest, start.ends⟩

theorem Start.eq_cons (start : Start offset ps state) (live : state.current.kind ≠ .eof) :
    ∃ word qs, ps = word :: qs := by
  cases ps with
  | nil =>
    refine absurd ?_ live
    rw [State.current, State.peek, start.rest]
    exact start.ends
  | cons word qs => exact ⟨word, qs, rfl⟩

/-- A single token has been read. -/
theorem Start.reached (start : Start offset ps state) (live : state.current.kind ≠ .eof)
    (calm : Token.Calm state.current state.next.current) :
    ∃ word qs, state.current = word.token offset ∧ Reached offset ps [word] qs state.next := by
  obtain ⟨word, qs, rfl⟩ := start.eq_cons live
  have here := start.current_cons
  refine ⟨word, qs, here, rfl, ?_, ?_, fun _ => ?_⟩
  · simpa using start.next
  · rw [here] at calm
    exact List.isChain_pair.2 calm
  · simpa using start.lastEnd_next

/-- What is read one after the other is read together. -/
theorem Reached.trans {others rs : List Piece} {middle : State}
    (first : Reached offset ps row qs middle)
    (second : Reached (offset + Piece.width row) qs (word :: others) rs state) :
    Reached offset ps (row ++ word :: others) rs state := by
  obtain ⟨rfl, start, calm, _⟩ := first
  obtain ⟨rfl, start', calm', last⟩ := second
  refine ⟨by simp, ?_, ?_, fun _ => ?_⟩
  · rwa [Piece.width_append, ← Nat.add_assoc]
  · rw [List.cons_append] at start
    rw [start.current_cons] at calm
    rw [Piece.tokens_append, List.append_assoc]
    exact List.isChain_split.2 ⟨calm, calm'⟩
  · rw [last (by simp), Piece.width_append, Nat.add_assoc]

/-- What is still to be read does not depend on the nodes and the mode. -/
theorem Reached.congr {state' : State} (reached : Reached offset ps row qs state)
    (rest : state'.rest = state.rest) (stop : state'.stop = state.stop)
    (last : state'.lastEnd = state.lastEnd) : Reached offset ps row qs state' where
  parts := reached.parts
  start := ⟨rest.trans reached.start.rest, stop ▸ reached.start.ends⟩
  calm := by
    have same : state'.current = state.current := by
      rw [State.current, State.peek, State.current, State.peek, rest, stop]
    exact same ▸ reached.calm
  last some := last.trans (reached.last some)

theorem kind_ne_eof_of_isPunct {token : Token} {text : String} (isText : token.isPunct text = true) :
    token.kind ≠ .eof := by
  simp only [Token.isPunct, Bool.and_eq_true, decide_eq_true_eq] at isText
  simp [isText.1]

/-- Only a name can wait for something. -/
theorem calm_of_kind_ne {a b : Token} (other : a.kind ≠ .identifier) : Token.Calm a b := by
  intro waits
  simp [Token.isIdentifier, other] at waits

theorem calm_of_isPunct {a b : Token} {text : String} (isText : a.isPunct text = true) :
    Token.Calm a b := by
  refine calm_of_kind_ne ?_
  simp only [Token.isPunct, Bool.and_eq_true, decide_eq_true_eq] at isText
  simp [isText.1]

end Steps

/-! ## Operands -/

section Operands

variable {p : Productions} [finds : AllFind p] {offset : Nat} {ps row qs : List Piece}
  {state state' : State} {e : Expr Mark} {φ : Phrase}

theorem isOperand_of_atom? {token : Token} {build : Mark → Expr Mark} {mark : Mark}
    (found : atom? token = some build) (plain : (build mark).isPlain = true) :
    token.isOperand = true := by
  unfold atom? at found
  unfold Token.isOperand
  split at found
  · next kind => rw [kind]
  · next kind => rw [kind]
  · next kind => rw [kind]
  · cases found
    simp [Expr.isPlain, Literal.isPlain] at plain
  · cases found
    simp [Expr.isPlain, Literal.isPlain] at plain
  · next kind =>
    rw [kind]
    split at found
    · next text => simp [text]
    split at found
    · next text => simp [text]
    split at found
    · next text => simp [text]
    split at found
    · cases found
      simp [Expr.isPlain] at plain
    split at found
    · next text =>
      cases found
      simp only [Bool.or_eq_true, decide_eq_true_eq] at text
      rcases text with text | text <;> simp [Expr.isPlain, text] at plain
    · cases found
  · cases found

/-- The mark of a phrase that has been read up to the completion of its node. -/
theorem Reached.markFrom {count : Nat}
    (reached : Reached offset ps φ.pieces qs state) (inside : state.exprs.size = count + φ.inside) :
    state.markFrom (offset + Text.byteLength φ.first.gap) = φ.mark count offset := by
  have last := reached.last (List.ne_nil_of_length_pos φ.length_pieces_pos)
  simp [State.markFrom, mark, span, bytes, inside, last]

/-- A phrase is found when its node is completed. -/
theorem Reached.found {before : State}
    (reached : Reached offset ps φ.pieces qs state) (grouped : φ.Grouped)
    (inside : state.exprs.size = before.exprs.size + φ.inside)
    (node : e = φ.node before.exprs.size offset) : φ.Found offset ps before e (state.grow e) where
  grouped := grouped
  reached := ⟨qs, reached.congr rfl rfl rfl⟩
  node := node
  count := by
    rw [State.grow, Array.size_push, inside]
    rfl

theorem leaf_of_atom? {word : Piece} {offset : Nat} {build : Mark → Expr Mark}
    (isAtom : atom? (word.token offset) = some build) : word.leaf = build := by
  rw [show atom? (word.token offset) = atom? (word.token 0) from rfl] at isAtom
  funext mark
  rw [Piece.leaf, isAtom]
  rfl

theorem found_atom (start : Start offset ps state) {build : Mark → Expr Mark}
    (isAtom : atom? state.current = some build) (operand : state.current.isOperand = true)
    (calm : Token.Calm state.current state.next.current) :
    ∃ word, (atom word).Found offset ps state (build (state.next.markFrom state.current.span.start))
      (state.next.grow (build (state.next.markFrom state.current.span.start))) := by
  have live : state.current.kind ≠ .eof := by
    intro stop
    simp [Token.isOperand, stop] at operand
  obtain ⟨word, qs, here, reached⟩ := start.reached live calm
  rw [here] at isAtom operand ⊢
  have single : Reached offset ps (atom word).pieces qs state.next := reached
  have inside : state.next.exprs.size = state.exprs.size + (atom word).inside := by
    rw [State.exprs_next]
    rfl
  refine ⟨word, single.found operand inside ?_⟩
  rw [node_atom, leaf_of_atom? isAtom, ← single.markFrom inside]
  rfl

/-- Behind what has been read, one more phrase has been read. -/
theorem Reached.phrase {before middle : State}
    (first : Reached offset ps row qs middle)
    (second : φ.Found (offset + Piece.width row) qs before e state') :
    ∃ rs, Reached offset ps (row ++ φ.pieces) rs state' := by
  obtain ⟨rs, reached⟩ := second.reached
  obtain ⟨others, parts⟩ := φ.pieces_eq_cons
  rw [parts] at reached ⊢
  exact ⟨rs, first.trans reached⟩

/-- Behind what has been read, one more sign has been read. -/
theorem Reached.sign (first : Reached offset ps row qs state)
    (live : state.current.kind ≠ .eof) (noName : state.current.kind ≠ .identifier) :
    ∃ sign rs, state.current = sign.token (offset + Piece.width row) ∧
      Reached offset ps (row ++ [sign]) rs state.next := by
  obtain ⟨sign, rs, here, reached⟩ := first.start.reached live (calm_of_kind_ne noName)
  exact ⟨sign, rs, here, first.trans reached⟩

theorem Reached.punct {text : String}
    (first : Reached offset ps row qs state) (isText : state.current.isPunct text = true) :
    ∃ sign rs, state.current = sign.token (offset + Piece.width row) ∧ sign.isPunct text = true ∧
      Reached offset ps (row ++ [sign]) rs state.next := by
  have kind : state.current.kind = .punctuator := by
    simp only [Token.isPunct, Bool.and_eq_true, decide_eq_true_eq] at isText
    exact isText.1
  obtain ⟨sign, rs, here, reached⟩ := first.sign (by simp [kind]) (by simp [kind])
  refine ⟨sign, rs, here, ?_, reached⟩
  rw [here] at isText
  exact isText

theorem Start.reached_nil (start : Start offset ps state) : Reached offset ps [] ps state :=
  ⟨rfl, start, List.isChain_singleton _, fun some => absurd rfl some⟩

/-- Further items of a row have been read between two states, the first of them behind a comma. -/
structure FoundRow (φ : Phrase) (offset : Nat) (ps : List Piece) (before : State)
    (items : List (Expr Mark)) (after : State) : Prop where
  grouped : φ.Grouped
  reached : ∃ qs, Reached offset ps φ.pieces qs after
  items : items = φ.items before.exprs.size offset
  count : after.exprs.size = before.exprs.size + if φ.isRow then φ.inside else φ.inside + 1

theorem Found.foundRow (found : φ.Found offset ps state e state')
    (tight : 1 ≤ φ.rank) : φ.FoundRow offset ps state [e] state' := by
  have single : φ.isRow = false := by
    cases φ with
    | comma => simp at tight
    | _ => rfl
  refine ⟨found.grouped, found.reached, ?_, ?_⟩
  · rw [items_of_not_isRow _ _ single, found.node]
  · rw [single]
    exact found.count

/-- Further items of a row, each behind a comma. -/
theorem finds_row {item : Parse (Expr Mark)} (finds : Finds item 1) {bound : Nat}
    {items : List (Expr Mark)} (start : Start offset ps state)
    (run : manyUpTo (do return !(← eatPunct ",")) item bound state = .ok items state')
    (plain : Expr.arePlain items = true) :
    (state.current.isPunct "," = false ∧ items = [] ∧ state = state') ∨
      ∃ (sign : Piece) (qs : List Piece) (φ : Phrase), sign.isPunct "," = true ∧
        Reached offset ps [sign] qs state.next ∧
          φ.FoundRow (offset + sign.bytes) qs state items state' := by
  induction bound generalizing offset ps state items with
  | zero => exact absurd run manyUpTo_zero
  | succ bound ih =>
    rcases manyUpTo_succ.1 run with ⟨stops, rfl⟩ | ⟨before, first, middle, others, goes, one, more, rfl⟩
    · obtain ⟨noComma, same⟩ := noComma_eq_ok.1 stops
      exact .inl ⟨by simpa using noComma, rfl, by simpa using same⟩
    · obtain ⟨isComma, same⟩ := noComma_eq_ok.1 goes
      rw [if_neg (by simp)] at same
      subst same
      rw [Expr.arePlain, Bool.and_eq_true] at plain
      obtain ⟨sign, qs, _, isSign, reached⟩ := start.reached_nil.punct (by simpa using isComma)
      obtain ⟨φ, found, tight⟩ := finds (by simpa using reached.start) one plain.1
      refine .inr ⟨sign, qs, ?_⟩
      obtain ⟨rs, behind⟩ := found.reached
      have size := congrArg Array.size state.exprs_next
      rcases ih behind.start more plain.2 with ⟨_, rfl, rfl⟩ |
        ⟨sign', qs', ψ, isSign', reached', row⟩
      · have row := found.foundRow tight
        exact ⟨φ, isSign, reached, row.grouped, row.reached, size ▸ row.items, size ▸ row.count⟩
      · obtain ⟨ts, last⟩ := row.reached
        have whole : Reached (offset + sign.bytes) qs (comma φ sign' ψ).pieces ts state' := by
          obtain ⟨tail, parts⟩ := ψ.pieces_eq_cons
          rw [parts] at last
          have := (behind.trans reached').trans (by simpa [Nat.add_assoc] using last)
          simpa [pieces, parts] using this
        have count := found.count
        rw [size] at count
        refine ⟨comma φ sign' ψ, isSign, reached, ⟨isSign', ⟨found.grouped, tight⟩, row.grouped⟩,
          ⟨ts, whole⟩, ?_, ?_⟩
        · rw [items_comma, found.node, row.items, count, size, bytes]
        · rw [row.count, count, Nat.add_assoc]
          rfl

/-- A row of items is a phrase. -/
theorem finds_sequence {item : Parse (Expr Mark)} (finds : Finds item 1) :
    Finds (sequence item) 0 := by
  intro offset ps state state' e start run plain
  obtain ⟨first, middle, one, rest⟩ := sequence_eq_ok.1 run
  rcases rest with ⟨_, rfl, rfl⟩ | ⟨isComma, others, behind, loop, rfl, rfl⟩
  · obtain ⟨φ, found, _⟩ := finds start one plain
    exact ⟨φ, found, Nat.zero_le _⟩
  · rw [Expr.isPlain, Expr.arePlain, Bool.and_eq_true] at plain
    obtain ⟨φ, found, tight⟩ := finds start one plain.1
    obtain ⟨qs, reached⟩ := found.reached
    rcases finds_row finds reached.start loop plain.2 with ⟨noComma, _⟩ |
      ⟨sign, rs, ψ, isSign, reached', row⟩
    · rw [isComma] at noComma
      cases noComma
    · obtain ⟨ts, last⟩ := row.reached
      have whole : Reached offset ps (comma φ sign ψ).pieces ts behind := by
        obtain ⟨tail, parts⟩ := ψ.pieces_eq_cons
        rw [parts] at last
        have := (reached.trans reached').trans (by simpa [Nat.add_assoc] using last)
        simpa [pieces, parts] using this
      have inside : behind.exprs.size = state.exprs.size + (comma φ sign ψ).inside := by
        rw [row.count, found.count, Nat.add_assoc]
        rfl
      refine ⟨comma φ sign ψ, whole.found ⟨isSign, ⟨found.grouped, tight⟩, row.grouped⟩ inside ?_,
        Nat.zero_le _⟩
      rw [node_comma, items_comma, found.node, row.items, found.count, bytes, outer_node,
        ← whole.markFrom inside]
      rfl

/-- A plain operand in parentheses is a group. -/
theorem finds_parenthesized (start : Start offset ps state)
    (opens : state.current.isPunct "(" = true) (run : parenthesized p state = .ok e state')
    (plain : e.isPlain = true) :
    ∃ left inner right, (group left inner right).Found offset ps state e state' := by
  obtain ⟨e, middle, items, closes, rfl, rfl⟩ := parenthesized_eq_ok.1 run
  rw [Expr.isPlain_withMark] at plain
  obtain ⟨left, qs, here, isLeft, reached⟩ := start.reached_nil.punct opens
  obtain ⟨φ, found, _⟩ := finds_sequence finds.assignment (reached.start.inMode false) items plain
  obtain ⟨rs, contents⟩ := reached.phrase found
  obtain ⟨right, ts, there, isRight, whole⟩ := contents.punct closes
  have size : (state.next.inMode false).exprs.size = state.exprs.size :=
    congrArg Array.size state.exprs_next
  refine ⟨left, φ, right, ⟨isLeft, found.grouped, isRight⟩, ⟨ts, ?_⟩, ?_, ?_⟩
  · rw [State.next_inMode]
    exact whole.congr rfl rfl rfl
  · rw [node_group, found.node, size, here, there]
    simp [span, bytes, pieces, first, Piece.token, Nat.add_assoc]
  · rw [State.next_inMode]
    simp only [State.enclosing, State.inMode, State.exprs_next, Array.size_setIfInBounds]
    rw [found.count, size]
    rfl

/-- A plain operand is a single word or a group. -/
theorem finds_primary (start : Start offset ps state)
    (calm : Token.Calm state.current state.next.current)
    (run : primary p state = .ok e state') (plain : e.isPlain = true) :
    ∃ φ : Phrase, φ.Found offset ps state e state' ∧ 15 ≤ φ.rank := by
  rcases primary_eq_ok.1 run with ⟨_, function⟩ | ⟨_, build, found, rfl, rfl⟩ | ⟨_, _, compound⟩
  · simp [isPlain_of_yields function] at plain
  · obtain ⟨word, found⟩ := found_atom start found (isOperand_of_atom? found plain) calm
    exact ⟨atom word, found, by simp⟩
  · obtain ⟨opens, run⟩ := compound_of_isPlain compound plain
    obtain ⟨left, inner, right, found⟩ := finds_parenthesized start opens run plain
    exact ⟨group left inner right, found, by simp⟩

/-- A plain operand has no members and no calls. -/
theorem finds_chain (start : Start offset ps state)
    (calm : Token.Calm state.current state.next.current)
    (run : chain p state = .ok e state') (plain : e.isPlain = true) :
    ∃ φ : Phrase, φ.Found offset ps state e state' ∧ 15 ≤ φ.rank := by
  obtain ⟨head, middle, first, loop⟩ := chain_eq_ok.1 run
  rcases eq_or_of_extendUpTo loop with ⟨stops, rfl⟩ | ⟨last, before, behind, link⟩
  · obtain ⟨_, rfl⟩ := chainLink_eq_none.1 stops
    split at first
    · simp [isPlain_of_yields first] at plain
    · exact finds_primary start calm first plain
  · have links : LinkNotPlain (some e) := Yields.yields link
    simp [links e rfl] at plain

/-- A sign in front of a plain operand is an operator without effects. -/
theorem signOp?_of_unaryAhead? {op : UnaryOp} (ahead : state.unaryAhead? = some op)
    (plain : op.isPlain = true) : state.current.signOp? = some op := by
  unfold State.unaryAhead? at ahead
  unfold Token.signOp?
  dsimp only at ahead
  split at ahead
  · next kind => simpa only [kind] using ahead
  · next kind => simpa only [kind] using ahead
  · split at ahead
    · cases ahead
      simp [UnaryOp.isPlain] at plain
    · cases ahead
  · cases ahead

/-- Where no operator is ahead, an `await` waits for nothing. -/
theorem calm_of_unaryAhead? (ahead : state.unaryAhead? = none) :
    Token.Calm state.current state.next.current := by
  intro waits
  rw [← peek_one, ← State.awaitsOperand_eq]
  simp only [Token.isIdentifier, Bool.and_eq_true, decide_eq_true_eq] at waits
  simpa [State.unaryAhead?, waits] using ahead

/-- A plain operand with the operators in front of it is a phrase. -/
theorem finds_unary : Finds (unary p) 15 := by
  intro offset ps state state' e start run plain
  rcases unary_eq_ok.1 run with ⟨op, argument, middle, ahead, inner, rfl, rfl⟩ |
    ⟨_, _, argument, middle, _, rfl, _⟩ | ⟨ahead, _, operand, middle, inner, rest⟩
  · rw [Expr.isPlain, Bool.and_eq_true] at plain
    have isSign := signOp?_of_unaryAhead? ahead plain.1
    have kind : state.current.kind ≠ .eof ∧ state.current.kind ≠ .identifier := by
      constructor <;>
      · intro kind
        simp [Token.signOp?, kind] at isSign
    obtain ⟨sign, qs, here, reached⟩ := start.reached_nil.sign kind.1 kind.2
    obtain ⟨φ, found, tight⟩ := finds.unary reached.start inner plain.2
    obtain ⟨rs, whole⟩ := reached.phrase found
    rw [here] at isSign
    have noEffect : op ≠ .delete ∧ op ≠ .await := by simpa [UnaryOp.isPlain] using plain.1
    have whole : Reached offset ps (signed sign op φ).pieces rs middle := whole
    have size := congrArg Array.size state.exprs_next
    have inside : middle.exprs.size = state.exprs.size + (signed sign op φ).inside := by
      rw [found.count, size]
      rfl
    refine ⟨signed sign op φ, whole.found ⟨⟨isSign, noEffect⟩, found.grouped, tight⟩ inside ?_, by simp⟩
    rw [node_signed, found.node, size, here, ← whole.markFrom inside]
    simp [first, Piece.token]
  · simp [Expr.isPlain] at plain
  · split at rest
    · obtain ⟨rfl, _⟩ := rest
      simp [Expr.isPlain] at plain
    · obtain ⟨rfl, rfl⟩ := rest
      exact finds_chain start (calm_of_unaryAhead? ahead) inner plain

end Operands

/-! ## Operators -/

section Operators

variable {p : Productions} [finds : AllFind p] {offset : Nat} {ps row qs : List Piece}
  {state state' : State} {e : Expr Mark} {φ : Phrase}

theorem isPlain_build {op : Infix} {left right : Expr Mark} {mark : Mark} :
    (op.build left right mark).isPlain = (left.isPlain && right.isPlain) := by
  cases op <;> simp only [Infix.build, Expr.isPlain]

/-- What is an operator in one mode is one in the mode in which every operator counts. -/
theorem ofToken?_of_mode {noIn : Bool} {token : Token} {op : Infix}
    (sign : Infix.ofToken? noIn token = some op) : Infix.ofToken? false token = some op := by
  cases noIn with
  | false => exact sign
  | true =>
    unfold Infix.ofToken? at sign ⊢
    split at sign
    · next kind => simpa only [kind] using sign
    · split at sign
      · next word => simpa [word] using sign
      · simp at sign
    · cases sign

/-- An operator that is added to a phrase gives a phrase, when it takes the whole of what stands in
front of it. -/
theorem FoundLink.link {least : Nat} {before : State} {left : Expr Mark}
    {φ : Phrase} (found : φ.FoundLink least offset ps before left state)
    (link : binaryLink p least left state = .ok (some e) state') (plain : e.isPlain = true) :
    ∃ ψ : Phrase, ψ.FoundLink least offset ps before e state' := by
  obtain ⟨op, right, middle, isSign, strong, operand, rfl, rfl⟩ := binaryLink_eq_some.1 link
  rw [isPlain_build, Bool.and_eq_true] at plain
  obtain ⟨qs, reached⟩ := found.reached
  have kind : state.current.kind ≠ .eof ∧ state.current.kind ≠ .identifier := by
    constructor <;>
    · intro kind
      simp [Infix.ofToken?, kind] at isSign
  obtain ⟨sign, rs, here, signed⟩ := reached.sign kind.1 kind.2
  obtain ⟨ψ, foundRight, loose⟩ :=
    finds.binary op.rightLeast (rightLeast_le_thirteen op) signed.start operand plain.2
  obtain ⟨ts, whole⟩ := signed.phrase foundRight.toFound
  have holds := found.loose op isSign
  have isSign := ofToken?_of_mode isSign
  rw [here] at isSign
  have power := one_le_power op
  have whole : Reached offset ps (linked op φ sign ψ).pieces ts middle := by
    simpa [pieces] using whole
  have size := congrArg Array.size state.exprs_next
  have inside : middle.exprs.size = before.exprs.size + (linked op φ sign ψ).inside := by
    rw [foundRight.count, size, found.count, Nat.add_assoc]
    rfl
  refine ⟨linked op φ sign ψ, whole.found
    ⟨isSign, ⟨found.grouped, holds⟩, foundRight.grouped, foundRight.strong⟩ inside ?_,
    by rw [rank_linked]; omega, by rw [rank_linked]; omega, loose⟩
  rw [node_linked, found.node, foundRight.node, size, found.count, outer_node,
    ← whole.markFrom inside]
  simp [bytes, first, span, Nat.add_assoc]

/-- Operators that are added to a phrase give a phrase, as long as each takes the whole of what
stands in front of it. -/
theorem finds_links {least bound : Nat} (before : State) {left : Expr Mark}
    (run : extendUpTo (binaryLink p least) bound left state = .ok e state')
    (plain : e.isPlain = true) (offset : Nat) (ps : List Piece) :
    left.isPlain = true ∧ ∀ φ : Phrase, φ.FoundLink least offset ps before left state →
      ∃ ψ : Phrase, ψ.FoundLink least offset ps before e state' ∧ Loose least state' := by
  induction bound generalizing state left with
  | zero => exact absurd run extendUpTo_zero
  | succ bound ih =>
    rcases extendUpTo_succ.1 run with ⟨stops, rfl⟩ | ⟨longer, behind, link, more⟩
    · obtain ⟨rfl, weak⟩ := binaryLink_eq_none.1 stops
      exact ⟨plain, fun φ found => ⟨φ, found, weak⟩⟩
    · obtain ⟨plainLonger, rest⟩ := ih more
      refine ⟨?_, fun φ found => ?_⟩
      · obtain ⟨op, right, middle, _, _, _, rfl, _⟩ := binaryLink_eq_some.1 link
        rw [isPlain_build, Bool.and_eq_true] at plainLonger
        exact plainLonger.1
      · obtain ⟨ψ, foundLonger⟩ := found.link link plainLonger
        exact rest ψ foundLonger

/-- What binds as tightly as an operand takes operators of every power. -/
theorem Found.foundLink (found : φ.Found offset ps state e state') (tight : 15 ≤ φ.rank)
    {least : Nat} (bounded : least ≤ 13) : φ.FoundLink least offset ps state e state' := by
  refine ⟨found, by omega, by omega, fun op _ => ?_⟩
  rw [hold_of_fifteen_le_rank tight]
  exact Nat.lt_succ_of_le (power_le op)

theorem finds_binary (least : Nat) (bounded : least ≤ 13) :
    FindsAbove (binary p least) least := by
  intro offset ps state state' e start run plain
  obtain ⟨left, middle, first, loop⟩ := binary_eq_ok.1 run
  obtain ⟨plainLeft, rest⟩ := finds_links state loop plain offset ps
  obtain ⟨φ, found, tight⟩ := finds_unary start first plainLeft
  exact rest φ (found.foundLink tight bounded)

/-- A plain conditional is a phrase. -/
theorem finds_conditional : Finds (conditional p) 2 := by
  intro offset ps state state' e start run plain
  obtain ⟨test, middle, first, rest⟩ := conditional_eq_ok.1 run
  rcases rest with ⟨_, rfl, rfl⟩ | ⟨asks, yes, behind, no, final, second, colon, third, rfl, rfl⟩
  · obtain ⟨φ, found, _⟩ := finds_binary 0 (Nat.zero_le _) start first plain
    exact ⟨φ, found.toFound, Nat.le_of_succ_le found.tight⟩
  · simp only [Expr.isPlain, Bool.and_eq_true] at plain
    obtain ⟨⟨plainTest, plainYes⟩, plainNo⟩ := plain
    obtain ⟨φ, foundTest, _⟩ := finds_binary 0 (Nat.zero_le _) start first plainTest
    obtain ⟨qs, reached⟩ := foundTest.reached
    obtain ⟨mark, rs, _, isMark, marked⟩ := reached.punct asks
    obtain ⟨ψ, foundYes, tightYes⟩ := finds.assignment (marked.start.inMode false) second plainYes
    obtain ⟨ts, both⟩ := marked.phrase foundYes
    obtain ⟨sign, us, _, isColon, split⟩ := both.punct colon
    rw [State.next_inMode] at third
    obtain ⟨χ, foundNo, tightNo⟩ := finds.assignment (split.start.inMode _) third plainNo
    obtain ⟨vs, whole⟩ := split.phrase foundNo
    have whole : Reached offset ps (choice φ mark ψ sign χ).pieces vs final := by
      simpa [pieces] using whole
    have sizeYes : (middle.next.inMode false).exprs.size = state.exprs.size + (φ.inside + 1) :=
      (congrArg Array.size middle.exprs_next).trans foundTest.count
    have sizeNo : (behind.next.inMode middle.noIn).exprs.size =
        state.exprs.size + (φ.inside + 1) + (ψ.inside + 1) :=
      (congrArg Array.size behind.exprs_next).trans (sizeYes ▸ foundYes.count)
    have inside : final.exprs.size = state.exprs.size + (choice φ mark ψ sign χ).inside := by
      rw [foundNo.count, sizeNo, Phrase.inside]
      omega
    refine ⟨choice φ mark ψ sign χ, whole.found ⟨⟨isMark, isColon⟩, ⟨foundTest.grouped,
      foundTest.tight⟩, ⟨foundYes.grouped, tightYes⟩, foundNo.grouped, tightNo⟩ inside ?_, by simp⟩
    rw [node_choice, foundTest.node, foundYes.node, foundNo.node, sizeYes, sizeNo, outer_node,
      ← whole.markFrom inside]
    simp [bytes, Phrase.first, span, Nat.add_assoc]

theorem finds_assignment : Finds (assignment p) 1 := by
  intro offset ps state state' e start run plain
  rcases assignment_eq_ok.1 run with ⟨_, arrow⟩ | ⟨_, _, yields⟩ | ⟨_, _, target, middle, first, rest⟩
  · simp [isPlain_of_yields arrow] at plain
  · simp [isPlain_of_yields yields] at plain
  · split at rest
    · obtain ⟨_, _, _, rfl, _⟩ := rest
      simp [Expr.isPlain] at plain
    · obtain ⟨rfl, rfl⟩ := rest
      obtain ⟨φ, found, tight⟩ := finds_conditional start first plain
      exact ⟨φ, found, Nat.le_of_succ_le tight⟩

/-- **The productions find phrases on every level.** -/
instance allFind_upTo (depth : Nat) : AllFind (Productions.upTo depth) := by
  induction depth with
  | zero =>
    exact {
      unary := fun _ run => absurd run unexpected_ne_ok
      assignment := fun _ run => absurd run unexpected_ne_ok
      binary := fun _ _ _ _ _ _ _ _ run => absurd run unexpected_ne_ok }
  | succ depth ih =>
    exact {
      unary := finds_unary
      assignment := finds_assignment
      binary := finds_binary }

end Operators

end Phrase

end TidyScript
