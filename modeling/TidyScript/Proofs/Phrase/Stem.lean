import TidyScript.Proofs.Grammar.Passage
import TidyScript.Proofs.Phrase.Place

/-!
# Plain nodes stem from phrases

While a row of pieces is read, plain nodes enter the tables in many places: at the end of a
production, between two operators of a row that goes on, and where parentheses are recorded around
a node that is there already. Wherever that is, the node is the one of a phrase in the row, with
the parentheses around it. `Keeps` says of a parse that it adds no other plain nodes.

Names are left out. A name may also stand for a property and its value at once, and such a name
need not be written as a name.
-/

namespace TidyScript

open Grammar

/-- Is the expression a name? -/
def Expr.isName {α : Type} : Expr α → Bool
  | identifier _ _ => true
  | _ => false

theorem Piece.withMark_leaf (p : Piece) (mark mark' : Mark) :
    (p.leaf mark).withMark mark' = p.leaf mark' := by
  unfold leaf atom?
  repeat' split
  all_goals rfl

theorem Piece.isChain_of_tokens {offset : Nat} {ps : List Piece}
    (calm : List.IsChain Token.Calm (Piece.tokens offset ps)) : List.IsChain Piece.Calm ps := by
  induction ps generalizing offset with
  | nil => exact .nil
  | cons p ps ih =>
    cases ps with
    | nil => exact .singleton p
    | cons q ps =>
      simp only [tokens_cons, List.isChain_cons_cons] at calm ih ⊢
      exact ⟨calm.1, ih calm.2⟩

/-- The node is that of a phrase in the row, with parentheses around it. -/
def Stems (row : List Piece) (e : Expr Mark) : Prop :=
  ∃ (φ : Phrase) (offset count : Nat) (outer : Span), φ.IsAt row offset ∧
    (φ.Grouped ∧ List.IsChain Piece.Calm φ.pieces) ∧ e = φ.enclosed outer count offset

theorem Phrase.Found.stems {φ : Phrase} {front ps : List Piece} {before after : State}
    {e : Expr Mark} (found : φ.Found (Piece.width front) ps before e after) :
    Stems (front ++ ps) e := by
  obtain ⟨grouped, ⟨qs, rfl, _, calm, _⟩, node, _⟩ := found
  refine ⟨φ, Piece.width front, before.exprs.size, φ.span (Piece.width front),
    ⟨front, qs, by simp, rfl⟩,
    ⟨grouped, Piece.isChain_of_tokens calm.left_of_append⟩, ?_⟩
  rw [node, enclosed_span]

/-- A single word stems from itself, whatever follows it. -/
theorem stems_atom {front qs : List Piece} {word : Piece} (operand : word.isOperand = true)
    (index : Nat) (outer : Span) : Stems (front ++ word :: qs)
      (word.leaf ⟨index, (Phrase.atom word).span (Piece.width front), outer⟩) := by
  refine ⟨.atom word, Piece.width front, index, outer, ⟨front, qs, ?_, rfl⟩,
    ⟨operand, .singleton word⟩, ?_⟩
  · simp [Phrase.pieces]
  · rw [Phrase.enclosed, Phrase.node_atom, Piece.mark_leaf, Piece.withMark_leaf]
    rfl

namespace Grammar

/-! ## States with plain nodes -/

/-- The pieces up to the state have been read, and the plain nodes in its table stem from them. -/
structure State.Rooted (row : List Piece) (s : State) : Prop where
  ahead : ∃ front ps, row = front ++ ps ∧ Phrase.Start (Piece.width front) ps s
  stems : ∀ e ∈ s.exprs, e.isPlain = true → e.isName = false → Stems row e

namespace State.Rooted

variable {row : List Piece} {s s' : State} {e : Expr Mark} (rooted : s.Rooted row)
include rooted

theorem next : s.next.Rooted row := by
  obtain ⟨⟨front, ps, rfl, start⟩, stems⟩ := rooted
  refine ⟨?_, by rwa [exprs_next]⟩
  cases ps with
  | nil =>
    refine ⟨front, [], rfl, ?_⟩
    rwa [State.next, start.rest]
  | cons word qs =>
    refine ⟨front ++ [word], qs, by simp, ?_⟩
    rw [Piece.width_append]
    simpa using start.next

theorem inMode (noIn : Bool) : (s.inMode noIn).Rooted row := by
  obtain ⟨⟨front, ps, parts, start⟩, stems⟩ := rooted
  exact ⟨⟨front, ps, parts, start.inMode noIn⟩, stems⟩

theorem grow (stems : e.isPlain = true → e.isName = false → Stems row e) :
    (s.grow e).Rooted row := by
  obtain ⟨⟨front, ps, parts, start⟩, others⟩ := rooted
  refine ⟨⟨front, ps, parts, start.rest, start.ends⟩, fun other mem => ?_⟩
  rcases Array.mem_push.1 mem with old | rfl
  · exact others other old
  · exact stems

theorem growStmt (x : Stmt Mark) : (s.growStmt x).Rooted row := by
  obtain ⟨⟨front, ps, parts, start⟩, stems⟩ := rooted
  exact ⟨⟨front, ps, parts, start.rest, start.ends⟩, stems⟩

theorem enclosing (stems : e.isPlain = true → Stems row e) : (s.enclosing e).Rooted row := by
  obtain ⟨⟨front, ps, parts, start⟩, others⟩ := rooted
  refine ⟨⟨front, ps, parts, start.rest, start.ends⟩, fun other mem => ?_⟩
  rcases Array.mem_or_eq_of_mem_setIfInBounds mem with old | rfl
  · exact others other old
  · exact fun plain _ => stems plain

/-- What a production finds stems from the row. -/
theorem found {parse : Parse (Expr Mark)} {least : Nat} (finds : Phrase.Finds parse least)
    (run : parse s = .ok e s') (plain : e.isPlain = true) : Stems row e := by
  obtain ⟨⟨front, ps, rfl, start⟩, _⟩ := rooted
  obtain ⟨φ, found, _⟩ := finds start run plain
  exact found.stems

end State.Rooted

/-! ## Parses that add no other plain nodes -/

/-- The plain nodes in the tables stem from the row in the second state if they do in the first. -/
def State.Roots (row : List Piece) (s s' : State) : Prop :=
  s.Rooted row → s'.Rooted row

instance State.Rooted.passage {row : List Piece} : Passage (State.Roots row) where
  refl _ := id
  trans first second rooted := second (first rooted)
  next _ := State.Rooted.next
  inMode _ noIn rooted := rooted.inMode noIn
  growStmt _ x rooted := rooted.growStmt x

/-- The parse adds no plain nodes that do not stem from the row. -/
abbrev Keeps {α : Type} (row : List Piece) (x : Parse α) : Prop :=
  Along (State.Roots row) x

instance Keeps.pushName {row : List Piece} {span : Span} {name : String} :
    Keeps row (pushExpr span (.identifier · name)) where
  along run rooted := by
    cases run
    exact rooted.grow nofun

instance Keeps.finishExpr {row : List Piece} {start : Nat} {build : Mark → Expr Mark}
    [other : Shaped NotPlain build] : Keeps row (Grammar.finishExpr start build) where
  along run rooted := by
    obtain ⟨rfl, rfl⟩ := finishExpr_eq_ok.1 run
    exact rooted.grow fun plain => absurd plain (by simp [isPlain_of_yields run])

/-! ## Productions that complete plain nodes -/

section Plain

variable {row : List Piece} {p : Productions} [finds : Phrase.AllFind p]

theorem sequence_keeps {item : Parse (Expr Mark)} (finds : Phrase.Finds item 1)
    [keeps : Keeps row item] : Keeps row (sequence item) where
  along run rooted := by
    obtain ⟨first, middle, one, rest⟩ := sequence_eq_ok.1 run
    rcases rest with ⟨_, rfl, rfl⟩ | ⟨_, others, behind, loop, made, rfl⟩
    · exact keeps.along one rooted
    · have looped : middle.Roots row behind := (Along.manyUpTo _).along loop
      exact (looped (keeps.along one rooted)).grow fun plain _ =>
        rooted.found (Phrase.finds_sequence finds) run plain

theorem parenthesized_keeps [Keeps row p.assignment] {s : State}
    (rooted : s.Rooted row) (opens : s.current.isPunct "(" = true) {e : Expr Mark} {s' : State}
    (run : parenthesized p s = .ok e s') : s'.Rooted row := by
  obtain ⟨inner, middle, items, _, _, rfl⟩ := parenthesized_eq_ok.1 run
  have entered := (sequence_keeps finds.assignment).along items (rooted.next.inMode false)
  refine (entered.inMode s.noIn).next.enclosing fun plain => ?_
  obtain ⟨⟨front, ps, rfl, start⟩, _⟩ := rooted
  obtain ⟨_, _, _, found⟩ := Phrase.finds_parenthesized start opens run plain
  exact found.stems

/-- A single token is a name or stems from its piece. -/
theorem atom_keeps {s : State} (rooted : s.Rooted row) {build : Mark → Expr Mark}
    (isAtom : atom? s.current = some build) :
    (s.next.grow (build (s.next.markFrom s.current.span.start))).Rooted row := by
  refine rooted.next.grow fun plain _ => ?_
  have operand := Phrase.isOperand_of_atom? isAtom plain
  obtain ⟨⟨front, ps, rfl, start⟩, _⟩ := rooted
  have live : s.current.kind ≠ .eof := by
    intro stop
    simp [Token.isOperand, stop] at operand
  obtain ⟨word, qs, rfl⟩ := start.eq_cons live
  have here := start.current_cons
  rw [here] at isAtom operand ⊢
  have mark : s.next.markFrom (word.token (Piece.width front)).span.start =
      ⟨s.next.exprs.size, (Phrase.atom word).span (Piece.width front),
        (Phrase.atom word).span (Piece.width front)⟩ := by
    simp [State.markFrom, start.lastEnd_next, Phrase.span, Phrase.first, Phrase.bytes_atom,
      Piece.token]
  rw [mark, ← Phrase.leaf_of_atom? isAtom]
  exact stems_atom operand _ _

theorem unary_keeps [keeps : Keeps row p.unary]
    [keepsChain : Keeps row (chain p)] : Keeps row (unary p) where
  along run rooted := by
    have stems := fun plain => rooted.found Phrase.finds_unary run plain
    rcases unary_eq_ok.1 run with ⟨op, argument, middle, _, inner, _, rfl⟩ |
      ⟨_, _, argument, middle, inner, _, rfl⟩ | ⟨_, _, operand, middle, inner, rest⟩
    · exact (keeps.along inner rooted.next).grow fun plain _ => stems plain
    · exact (keeps.along inner rooted.next).grow fun plain _ => stems plain
    · split at rest
      · obtain ⟨_, rfl⟩ := rest
        exact (keepsChain.along inner rooted).next.grow fun plain _ => stems plain
      · obtain ⟨_, rfl⟩ := rest
        exact keepsChain.along inner rooted

/-- Each operator of a row takes a phrase as its left operand, so what it makes is one. -/
theorem links_keep (keeps : ∀ least, least ≤ 13 → Keeps row (p.binary least)) {least bound : Nat}
    {front ps : List Piece} (parts : row = front ++ ps) (before : State)
    {s s' : State} {left e : Expr Mark} (rooted : s.Rooted row)
    (found : left.isPlain = true →
      ∃ φ : Phrase, φ.FoundLink least (Piece.width front) ps before left s)
    (run : extendUpTo (binaryLink p least) bound left s = .ok e s') : s'.Rooted row := by
  induction bound generalizing s left with
  | zero => exact absurd run extendUpTo_zero
  | succ bound ih =>
    rcases extendUpTo_succ.1 run with ⟨stops, _⟩ | ⟨longer, behind, link, more⟩
    · obtain ⟨rfl, _⟩ := binaryLink_eq_none.1 stops
      exact rooted
    · have further : longer.isPlain = true →
          ∃ φ : Phrase, φ.FoundLink least (Piece.width front) ps before longer behind := by
        intro plain
        obtain ⟨op, right, middle, _, _, _, rfl, _⟩ := binaryLink_eq_some.1 link
        rw [Phrase.isPlain_build, Bool.and_eq_true] at plain
        obtain ⟨φ, foundLeft⟩ := found plain.1
        exact foundLeft.link link (by rw [Phrase.isPlain_build, plain.1, plain.2]; rfl)
      refine ih ?_ further more
      obtain ⟨op, right, middle, _, _, operand, _, rfl⟩ := binaryLink_eq_some.1 link
      have keeps := keeps _ (Phrase.rightLeast_le_thirteen op)
      refine (keeps.along operand rooted.next).grow fun plain _ => ?_
      obtain ⟨φ, foundLonger⟩ := further plain
      rw [parts]
      exact foundLonger.stems

theorem binary_keeps [keepsUnary : Keeps row (unary p)]
    (keeps : ∀ least, least ≤ 13 → Keeps row (p.binary least)) {least : Nat} (bounded : least ≤ 13) :
    Keeps row (binary p least) where
  along {s _ _} run rooted := by
    obtain ⟨left, middle, first, loop⟩ := binary_eq_ok.1 run
    obtain ⟨front, ps, parts, start⟩ := rooted.ahead
    refine links_keep keeps parts s (keepsUnary.along first rooted) (fun plain => ?_) loop
    obtain ⟨φ, found, tight⟩ := Phrase.finds_unary start first plain
    exact ⟨φ, found.foundLink tight bounded⟩

theorem conditional_keeps [keepsTest : Keeps row (binary p 0)]
    [keeps : Keeps row p.assignment] : Keeps row (conditional p) where
  along run rooted := by
    obtain ⟨test, middle, first, rest⟩ := conditional_eq_ok.1 run
    have tested := keepsTest.along first rooted
    rcases rest with ⟨_, _, rfl⟩ | ⟨_, yes, behind, no, final, second, _, third, _, rfl⟩
    · exact tested
    · have chosen := keeps.along second (tested.next.inMode false)
      refine (keeps.along third (chosen.inMode middle.noIn).next).grow fun plain _ => ?_
      exact rooted.found Phrase.finds_conditional run plain

end Plain

end Grammar

end TidyScript
