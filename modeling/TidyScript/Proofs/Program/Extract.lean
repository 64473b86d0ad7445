import TidyScript.Proofs.Program.Structure
import TidyScript.Proofs.Token.Excerpt

/-!
# The text of statements

From the start of the first to the end of the last of some statements that stand one behind the
other, the source is a row of pieces, and their tokens are those of the statements. Read alone, the
text gives these tokens again: no statement starts with a sign of division, so a slash at the front
opens a regular expression in both places. If no comment stands in it, nothing but white space is
between the tokens.
-/

namespace TidyScript

open Text (byteLength)

/-! ## The first sign of a statement -/

namespace Grammar

/-- A sign of division starts no statement. -/
theorem statement_fails_of_division {p : Productions} {s s' : State} {x : Stmt Mark}
    (kind : s.current.kind = .punctuator) (slash : s.current.text = "/" ∨ s.current.text = "/=") :
    ¬ statement p s = .ok x s' := by
  have noPunct : ∀ text, text ≠ "/" → text ≠ "/=" → s.current.isPunct text = false := by
    intro text other other'
    rcases slash with is | is <;> simp [Token.isPunct, is, other.symm, other'.symm]
  have noKeyword : ∀ text, s.current.isKeyword text = false := by
    simp [Token.isKeyword, kind]
  have noAtom : atom? s.current = none := by rw [atom?, kind]
  have noSign : s.unaryAhead? = none := by
    rw [State.unaryAhead?, kind]
    rcases slash with is | is <;> rw [is] <;> rfl
  have noUpdate : isUpdate s.current = false := by simp [isUpdate, noPunct]
  have noName : s.current.isIdentifier "async" = false := by simp [Token.isIdentifier, kind]
  have noArrow : s.arrowAhead = false := by
    simp only [State.arrowAhead, noName, Bool.false_and, Bool.false_eq_true, if_false]
    change (if s.current.kind = .identifier then _ else if s.current.isPunct "(" then _ else _) = _
    simp [kind, noPunct]
  intro run
  replace run := get_bind.symm.trans run
  have noStatement : statementAhead? p s = none := by
    rw [statementAhead?, kind]
    rcases slash with is | is <;> simp [is]
  rw [noStatement] at run
  replace run := current_bind.symm.trans run
  obtain ⟨_, _, run, -⟩ := bind_eq_ok.1 run
  obtain ⟨_, _, run, -⟩ := bind_eq_ok.1 run
  replace run := get_bind.symm.trans run
  rw [noArrow] at run
  replace run := atKeyword_bind.symm.trans run
  rw [noKeyword] at run
  obtain ⟨_, _, run, -⟩ := bind_eq_ok.1 run
  obtain ⟨_, _, run, -⟩ := bind_eq_ok.1 run
  obtain ⟨_, _, run, -⟩ := bind_eq_ok.1 run
  replace run := get_bind.symm.trans run
  simp only [noSign, noUpdate, Bool.false_eq_true, if_false] at run
  obtain ⟨_, _, run, -⟩ := bind_eq_ok.1 run
  replace run := atKeyword_bind.symm.trans run
  rw [noKeyword] at run
  obtain ⟨_, _, run, -⟩ := bind_eq_ok.1 run
  replace run := get_bind.symm.trans run
  simp [State.asyncFunctionAhead, noName, noAtom, noKeyword, noPunct] at run
  exact unexpected_ne_ok run

variable {s s' : State} {xs : List (Stmt Mark)} {x : Stmt Mark}

namespace Recital

theorem start_eq (recital : Recital s xs s') (first : xs.head? = some x) :
    x.span.start = s.here := by
  cases recital with
  | nil => cases first
  | cons depth read more =>
    obtain rfl := Option.some.inj first
    rw [Program.span_of_run read]

theorem stop_eq (recital : Recital s xs s') (last : xs.getLast? = some x) :
    x.span.stop = s'.lastEnd := by
  induction recital with
  | nil => cases last
  | cons depth read more ih =>
    cases more with
    | nil =>
      obtain rfl := Option.some.inj last
      exact congrArg Span.stop (Program.span_of_run read)
    | cons => exact ih (by rwa [List.getLast?_cons_cons] at last)

/-- Reading statements takes tokens. -/
theorem exists_taken (recital : Recital s xs s') (ends : s.Ends) (some : xs ≠ []) :
    ∃ read token, s.rest = read ++ token :: s'.rest ∧ s'.lastEnd = token.span.stop := by
  refine recital.steps.taken.resolve_left fun still => ?_
  cases recital with
  | nil => exact some rfl
  | cons depth read more =>
    have taken : _ + 1 ≤ _ := Takes.takes ends read
    have behind := more.steps.length_le
    rw [still.1] at behind
    omega

/-- No sign of division stands in front of statements. -/
theorem not_division (recital : Recital s xs s') (some : xs ≠ []) :
    ¬ (s.current.kind = .punctuator ∧ (s.current.text = "/" ∨ s.current.text = "/=")) := by
  rintro ⟨kind, slash⟩
  cases recital with
  | nil => exact some rfl
  | @cons _ _ _ _ _ depth read more =>
    cases depth with
    | zero => exact unexpected_ne_ok read
    | succ depth => exact statement_fails_of_division kind slash read

end Recital

end Grammar

/-! ## Parts of a row -/

namespace Piece

theorem exists_split_of_append {offset : Nat} {ps : List Piece} {as bs : List Token}
    (parts : tokens offset ps = as ++ bs) : ∃ front behind, ps = front ++ behind ∧
      tokens offset front = as ∧ tokens (offset + width front) behind = bs := by
  have length := congrArg List.length parts
  simp only [tokens_length, List.length_append] at length
  refine ⟨ps.take as.length, ps.drop as.length, (List.take_append_drop ..).symm, ?_⟩
  rw [← List.take_append_drop as.length ps, tokens_append] at parts
  refine List.append_inj parts ?_
  rw [tokens_length, List.length_take]
  omega

theorem stop_of_getLast? {offset : Nat} {ps : List Piece} {token : Token}
    (last : (tokens offset ps).getLast? = some token) :
    token.span.stop = offset + width ps := by
  rcases List.eq_nil_or_concat ps with rfl | ⟨front, q, rfl⟩
  · cases last
  · rw [List.concat_eq_append, tokens_append, tokens_cons, tokens_nil,
      List.getLast?_concat] at last
    obtain rfl := Option.some.inj last
    simp [token, width_append, Nat.add_assoc]

theorem isSpace_of_comments_eq_nil {offset : Nat} {ps : List Piece}
    (gaps : ∀ p ∈ ps, Token.Gap p.newline p.gap) (none : comments offset ps = []) :
    ∀ p ∈ ps, ∀ c ∈ p.gap, Lexical.isSpace c = true := by
  induction ps generalizing offset with
  | nil => simp
  | cons p ps ih =>
    rw [List.forall_mem_cons] at gaps ⊢
    obtain ⟨here, later⟩ := List.append_eq_nil_iff.1 none
    refine ⟨fun c mem => ?_, ih gaps.2 later⟩
    have strung := Token.strung_trivia offset p.gap
    rw [gaps.1.trivia_eq, here, List.take_length] at strung
    obtain ⟨front, back, split⟩ := List.append_of_mem mem
    exact strung.isSpace_of_outside split (by simp)

end Piece

/-! ## Extracts -/

namespace Program

variable {program : Program} {source : String} {row : TokenRow} {moved : List (Stmt Mark)}
  {first last : Stmt Mark} {s s' : Grammar.State}

/-- Statements that have been read one behind the other are a stretch of the source's pieces. -/
theorem Reading.exists_stretch (reading : program.Reading row s moved s') (some : moved ≠ [])
    (found : TokenRow.ofString source = .ok row) (tokens : program.tokens = row.tokens.toArray) :
    ∃ front p middle behind final,
      source.toList = Piece.render (front ++ p :: (middle ++ behind)) final ∧
      Piece.Fits true (front ++ p :: (middle ++ behind)) final ∧
      row = Piece.row 0 [] (front ++ p :: (middle ++ behind)) final ∧
      program.rowOf moved = Piece.tokens (Piece.width front) (p :: middle) ∧
      s.current = p.token (Piece.width front) ∧
      s'.lastEnd = Piece.width front + p.bytes + Piece.width middle := by
  have lined := TokenRow.lined_of_ofString found
  obtain ⟨taken, token, split, lastEnd⟩ :=
    reading.recital.exists_taken ((congrArg Token.kind reading.stop).trans lined.ended) some
  rw [List.append_cons] at split
  have rest := rest_of_recital tokens lined reading.recital reading.suffix reading.stop
  have rows : program.rowOf moved = taken ++ [token] :=
    List.append_cancel_right (rest.symm.trans split)
  obtain ⟨before, whole⟩ := reading.suffix
  rw [split] at whole
  obtain ⟨ps, final, text, fits, rfl⟩ := TokenRow.fits_of_ofString found
  obtain ⟨front, others, rfl, -, parts⟩ := Piece.exists_split_of_append whole.symm
  obtain ⟨own, behind, rfl, isOwn, -⟩ := Piece.exists_split_of_append parts
  rw [Nat.zero_add] at isOwn
  have stop : token.span.stop = _ := Piece.stop_of_getLast? (by rw [isOwn, List.getLast?_concat])
  cases own with
  | nil => simp at isOwn
  | cons p middle =>
    refine ⟨front, p, middle, behind, final, text, fits, rfl, rows.trans isOwn.symm, ?_, ?_⟩
    · rw [Grammar.State.current, Grammar.State.peek, split, ← isOwn]
      rfl
    · rw [lastEnd, stop, Piece.width_cons, Nat.add_assoc]

/-- An operator that starts with a slash is a sign of division. -/
theorem eq_division_of_slash : ∀ sign ∈ Token.punctuators, sign.toList.head? = some '/' →
    sign = "/" ∨ sign = "/=" := by
  decide +kernel

/-- Without the gap in front of them, the pieces are the text of a span, and their tokens are those
of the statements. -/
structure Extract (program : Program) (moved : List (Stmt Mark)) (span : Span) (p : Piece)
    (ps : List Piece) : Prop where
  text : program.text span = .ok (String.ofList (p.text ++ ps.flatMap Piece.chars))
  tokens : ∃ place, program.rowOf moved = Piece.tokens place (p :: ps)
  fits : Piece.Fits true (⟨[], p.kind, p.text⟩ :: ps) []
  space : program.hasCommentsIn span = false → ∀ q ∈ ps, ∀ c ∈ q.gap, Lexical.isSpace c = true

/-- **The text of statements has their tokens.** -/
theorem exists_extract (read : parse source = .ok program) (occurs : program.Occurs moved)
    (head : moved.head? = some first) (tail : moved.getLast? = some last) :
    ∃ p ps, program.Extract moved ⟨first.span.start, last.span.stop⟩ p ps := by
  obtain ⟨row, found, tokens, comments, readings⟩ := exists_reading_of_occurs read
  obtain ⟨s, s', reading⟩ := readings occurs
  have some : moved ≠ [] := List.ne_nil_of_mem (List.mem_of_head? head)
  obtain ⟨front, p, middle, behind, final, text, fits, rfl, rows, current, lastEnd⟩ :=
    reading.exists_stretch some found tokens
  have start : first.span.start = Piece.width front + byteLength p.gap := by
    rw [reading.recital.start_eq head, Grammar.State.here, current]
    rfl
  have stop : last.span.stop = Piece.width front + p.bytes + Piece.width middle := by
    rw [reading.recital.stop_eq tail, lastEnd]
  obtain ⟨regexAllowed, fits⟩ := fits.right
  refine ⟨p, middle, ?_, ⟨_, rows⟩, fits.stretch ?_, fun none => ?_⟩
  · rw [Program.text, (seated_of_parse read).1, start, stop]
    exact Piece.cut_stretch text
  · rintro ⟨isOperator, slash⟩
    have lexes := fits.1.lexes
    rw [isOperator] at lexes
    have sign := eq_division_of_slash _ lexes.punctuator.1 (by rwa [String.toList_ofList])
    exact reading.recital.not_division some (current ▸ ⟨isOperator, sign⟩)
  · have inside := @Piece.filter_comments front middle behind p final
      ⟨first.span.start, last.span.stop⟩ start stop
    rw [← comments, List.filter_eq_nil_iff.2 (by simpa [hasCommentsIn] using none)] at inside
    refine Piece.isSpace_of_comments_eq_nil (fun q mem => ?_) inside.symm
    obtain ⟨_, _, stands⟩ := fits.stands q (by simp [mem])
    exact stands.gap

end Program

end TidyScript
