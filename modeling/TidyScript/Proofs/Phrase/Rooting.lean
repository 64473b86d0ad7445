import TidyScript.Proofs.Phrase.Airy
import TidyScript.Proofs.Phrase.Stem
import TidyScript.Proofs.Program.Seat

/-!
# Every plain node of a program stems from a phrase

The productions are gone through one by one. Those that complete plain nodes have been dealt with;
all others complete nodes that are not plain, or names, and keep what their parts keep. The plain
nodes of a program are therefore those of phrases that stand among the pieces of its source, and
each of these phrases can be read by itself.
-/

namespace TidyScript

namespace Grammar

-- productions are long rows of steps
set_option synthInstance.maxSize 1000000000

variable {row : List Piece} {p : Productions}

/-- The productions add no plain nodes that do not stem from the row. -/
class Productions.Keeping (row : List Piece) (p : Productions) : Prop where
  finds : Phrase.AllFind p
  statement : Keeps row p.statement
  assignment : Keeps row p.assignment
  binary : ∀ least, least ≤ 13 → Keeps row (p.binary least)
  unary : Keeps row p.unary
  chain : Keeps row p.chain
  construct : Keeps row p.construct
  primary : Keeps row p.primary

namespace Productions.Keeping

attribute [instance] finds statement assignment unary chain construct primary

end Productions.Keeping

section Productions

variable [keeping : p.Keeping row]

instance : Keeps row (propertyKey p) := by
  refine .seq .of_still fun token => ?_
  split <;> infer_instance

instance : Keeps row (sequence p.assignment) :=
  sequence_keeps keeping.finds.assignment

instance : Keeps row (primary p) where
  along {s e s'} run rooted := by
    have function (start : Nat) : Keeps row (functionExpression p start) := inferInstance
    rcases primary_eq_ok.1 run with ⟨_, run⟩ | ⟨_, build, isAtom, rfl, rfl⟩ | ⟨_, _, run⟩
    · exact (function _).along run rooted.next
    · exact atom_keeps rooted isAtom
    · by_cases opens : s.current.isPunct "(" = true
      · obtain ⟨kind, text⟩ : s.current.kind = .punctuator ∧ s.current.text = "(" := by
          simpa [Token.isPunct] using opens
        simp only [compound, Token.isKeyword, kind, opens] at run
        exact parenthesized_keeps rooted opens run
      · rw [compound, if_neg opens] at run
        have roots : s.Roots row s' := Along.along run
        exact roots rooted

instance : Keeps row (unary p) :=
  unary_keeps

theorem operators_keep {least : Nat} (bounded : least ≤ 13) : Keeps row (binary p least) :=
  binary_keeps keeping.binary bounded

instance : Keeps row (conditional p) :=
  have : Keeps row (binary p 0) := operators_keep (Nat.zero_le _)
  conditional_keeps

instance : Keeps row (expression p) :=
  sequence_keeps Phrase.finds_assignment

end Productions

/-! ## All productions -/

/-- **The productions of every depth add only plain nodes that stem from the row.** -/
instance Productions.keeping_upTo (depth : Nat) : (Productions.upTo depth).Keeping row := by
  induction depth with
  | zero =>
    exact ⟨inferInstance, .unexpected, .unexpected, fun _ _ => .unexpected, .unexpected,
      .unexpected, .unexpected, .unexpected⟩
  | succ depth keeping =>
    refine ⟨inferInstance, ?_, ?_, fun _ bounded => operators_keep bounded, ?_, ?_, ?_, ?_⟩ <;>
      dsimp only [Productions.upTo] <;> infer_instance

theorem State.rooted_ofRow {tokens : TokenRow} (parts : tokens.tokens = Piece.tokens 0 row)
    (ends : tokens.stop.kind = .eof) : (State.ofRow tokens).Rooted row :=
  ⟨⟨[], row, rfl, parts, ends⟩, fun _ mem => absurd mem (Array.not_mem_empty _)⟩

end Grammar

/-! ## Plain nodes of a program -/

/-- A phrase can be read if the pieces that it stands among have been. -/
theorem Phrase.IsAt.legible {φ : Phrase} {row : List Piece} {offset : Nat}
    (isAt : φ.IsAt row offset) {regexAllowed : Bool} {final : List Char}
    (fits : Piece.Fits regexAllowed row final) (grouped : φ.Grouped)
    (calm : List.IsChain Piece.Calm φ.pieces) : φ.Legible := by
  obtain ⟨before, behind, rfl, _⟩ := isAt
  rw [List.append_assoc] at fits
  obtain ⟨_, fits⟩ := fits.right
  obtain ⟨wholes, chain⟩ := Piece.isChain_of_fits fits grouped.isPlain grouped.isChain_follows calm
  exact ⟨grouped, wholes, chain⟩

namespace Program

/-- Is every name in the expression written as a name? It is not where a property of another kind
stands for its value as well. -/
def writesNames (program : Program) (e : Expr Mark) : Bool :=
  (e.descendants ++ [e]).all fun
    | .identifier mark name =>
      program.tokens.any fun token => token.isIdentifier name && token.span = mark.span
    | _ => true

/-- Is the expression plain, with names that are written as names? -/
def isPlain (program : Program) (e : Expr Mark) : Bool :=
  e.isPlain && program.writesNames e

variable {source : String} {program : Program}

/-- The pieces that a program is read from, which its plain nodes stem from. -/
theorem exists_row_of_read
    (read : parse source = .ok program ∨ ∃ e, parseExpression source = .ok (program, e)) :
    ∃ row final, program.Spells row ∧ Piece.Fits true row final ∧
      ∀ e ∈ program.exprs, e.isPlain = true → e.isName = false → Stems row e := by
  have rooted : ∃ tokens body state, readTokens source = .ok tokens ∧
      program = ofState source tokens state body ∧
        ∀ row, (Grammar.State.ofRow tokens).Rooted row → state.Rooted row := by
    rcases read with read | ⟨e, read⟩
    · obtain ⟨tokens, body, state, lexed, run, rfl⟩ := exists_run_of_parse read
      exact ⟨tokens, body, state, lexed, rfl, fun row rooted =>
        (inferInstance : Grammar.Keeps row Grammar.readProgram).along run rooted⟩
    · obtain ⟨tokens, x, state, lexed, run, rfl⟩ := exists_run_of_parseExpression read
      exact ⟨tokens, [x], state, lexed, rfl, fun row rooted =>
        (inferInstance : Grammar.Keeps row Grammar.readSingleExpression).along run rooted⟩
  obtain ⟨tokens, body, state, lexed, rfl, keeps⟩ := rooted
  obtain ⟨row, final, text, fits, rfl⟩ :=
    TokenRow.fits_of_ofString (exists_row_of_readTokens lexed)
  refine ⟨row, final, ⟨⟨final, text⟩, rfl, fun p mem => ?_⟩, fits,
    (keeps row (Grammar.State.rooted_ofRow rfl rfl)).stems⟩
  obtain ⟨_, _, stands⟩ := fits.stands p mem
  exact stands.text_ne_nil

/-- A name that is written as one stems from its word. -/
theorem stems_of_isName {row : List Piece} (spells : program.Spells row) {e : Expr Mark}
    (writes : program.writesNames e = true) (isName : e.isName = true) : Stems row e := by
  cases e with
  | identifier mark name =>
    simp only [writesNames, List.all_append, List.all_cons, List.all_nil, Bool.and_true,
      Bool.and_eq_true, Array.any_eq_true', spells.tokens, decide_eq_true_eq] at writes
    obtain ⟨token, mem, isWord, place⟩ := writes.2
    obtain ⟨front, word, behind, rfl, rfl⟩ :=
      Piece.exists_split_of_mem_tokens (by simpa using mem)
    simp only [Token.isIdentifier, Bool.and_eq_true, decide_eq_true_eq] at isWord
    obtain ⟨kind, rfl⟩ := isWord
    have kind : word.kind = .identifier := kind
    have operand : word.isOperand = true := by
      simp [Piece.isOperand, Token.isOperand, Piece.token, kind]
    have leaf : word.leaf mark = .identifier mark (String.ofList word.text) := by
      simp [Piece.leaf, Grammar.atom?, Piece.token, kind]
    have stems := @stems_atom front behind word operand mark.index mark.outer
    have same : (Phrase.atom word).span (Piece.width front) = mark.span := by
      rw [← place]
      simp [Phrase.span, Piece.token, Phrase.first, Phrase.bytes_atom]
    rwa [same, leaf] at stems
  | _ => cases isName

/-- **Every plain node of a program is that of a phrase in its source.** -/
theorem exists_stands
    (read : parse source = .ok program ∨ ∃ e, parseExpression source = .ok (program, e)) :
    ∃ row : List Piece, program.Spells row ∧ ∀ e ∈ program.exprs, program.isPlain e = true →
      ∃ (φ : Phrase) (offset count : Nat) (outer : Span),
        (φ.Stands False row offset ∧ φ.isGroup = false) ∧ e = φ.enclosed outer count offset := by
  obtain ⟨row, final, spells, fits, stem⟩ := exists_row_of_read read
  refine ⟨row, spells, fun e mem plain => ?_⟩
  rw [isPlain, Bool.and_eq_true] at plain
  have stems : Stems row e := by
    cases isName : e.isName with
    | true => exact stems_of_isName spells plain.2 isName
    | false => exact stem e mem plain.1 isName
  obtain ⟨φ, offset, count, outer, isAt, ⟨grouped, calm⟩, rfl⟩ := stems
  have legible := isAt.legible fits grouped calm
  obtain ⟨ψ, before, behind, _, parts, ⟨groupedψ, bare⟩, node, _⟩ := grouped.exists_core count offset
  refine ⟨ψ, _, count, outer, ⟨⟨isAt.part before behind parts,
    legible.part before behind parts groupedψ, nofun⟩, bare⟩, ?_⟩
  rw [Phrase.enclosed, node, Phrase.enclosed, Expr.mark_withMark, Expr.withMark_withMark]
  rfl

end Program

end TidyScript
