import TidyScript.Program.Basic
import TidyScript.Proofs.Phrase.Origin

/-!
# Sources that are one plain expression

A sentence is a phrase with an optional semicolon behind it and the gap that ends the source.
A source is read as one statement that is a plain expression exactly when it is a sound
sentence, and what reading finds in it is given by the phrase.
-/

namespace TidyScript

open Grammar

/-- The first piece is no `await` that waits for the second. -/
def Piece.Calm (p q : Piece) : Prop :=
  Token.Calm (p.token 0) (q.token 0)

theorem Piece.isChain_tokens {stop : Token} (ends : stop.kind = .eof) (offset : Nat)
    {ps : List Piece} :
    List.IsChain Token.Calm (Piece.tokens offset ps ++ [stop]) ↔ List.IsChain Piece.Calm ps := by
  induction ps generalizing offset with
  | nil => simp
  | cons p ps ih =>
    cases ps with
    | nil =>
      have last : Token.Calm (p.token offset) stop := fun _ => by simp [Token.isAwaited, ends]
      simpa using last
    | cons q ps =>
      have := ih (offset + p.bytes)
      simp only [tokens_cons, List.cons_append, List.isChain_cons_cons] at this ⊢
      rw [this]
      rfl

/-- The piece is an operand, an operator, a parenthesis, a comma or a sign of a conditional. -/
def Piece.IsPlain (p : Piece) : Prop :=
  p.isOperand = true ∨ (∃ text ∈ ["(", ")", "?", ":", ","], p.isPunct text = true) ∨
    (∃ op, p.signOp? = some op) ∨ ∃ op, p.linkOp? = some op

theorem Piece.IsPlain.isStill {p : Piece} (plain : p.IsPlain) (offset : Nat) :
    (p.token offset).isStill = true := by
  rw [Token.isStill, Bool.and_eq_true, Bool.not_eq_true', Bool.not_eq_true']
  rcases plain with operand | ⟨text, mem, isText⟩ | ⟨op, sign⟩ | ⟨op, link⟩
  · exact ⟨Token.isPunct_eq_false_of_isOperand operand _,
      Token.isKeyword_eq_false_of_isOperand operand (by decide)⟩
  · refine ⟨Phrase.isPunct_ne isText ?_, Token.isKeyword_eq_false_of_isPunct isText _⟩
    rintro rfl
    simp at mem
  · exact ⟨Token.isPunct_eq_false_of_signOp? sign (by decide),
      Token.isKeyword_eq_false_of_signOp? sign (by decide)⟩
  · have follows := Token.isFollower_of_ofToken? link
    exact ⟨Token.isPunct_eq_false_of_isFollower follows (by decide),
      Token.isKeyword_eq_false_of_isFollower follows (by decide)⟩

namespace Phrase

theorem Grouped.isPlain {φ : Phrase} (grouped : φ.Grouped) : ∀ p ∈ φ.pieces, p.IsPlain := by
  induction φ with
  | atom word =>
    intro p mem
    rw [List.mem_singleton.1 mem]
    exact .inl grouped
  | group left inner right ih =>
    obtain ⟨isLeft, inside, isRight⟩ := grouped
    simp only [pieces, List.mem_cons, List.mem_append, List.not_mem_nil, or_false]
    rintro p (rfl | mem | rfl)
    · exact .inr (.inl ⟨"(", by simp, isLeft⟩)
    · exact ih inside p mem
    · exact .inr (.inl ⟨")", by simp, isRight⟩)
  | signed sign op operand ih =>
    obtain ⟨⟨isSign, _⟩, inside, _⟩ := grouped
    simp only [pieces, List.mem_cons]
    rintro p (rfl | mem)
    · exact .inr (.inr (.inl ⟨op, isSign⟩))
    · exact ih inside p mem
  | linked op left sign right ihLeft ihRight =>
    obtain ⟨isSign, ⟨groupedLeft, _⟩, groupedRight, _⟩ := grouped
    simp only [pieces, List.mem_append, List.mem_cons]
    rintro p (mem | rfl | mem)
    · exact ihLeft groupedLeft p mem
    · exact .inr (.inr (.inr ⟨op, isSign⟩))
    · exact ihRight groupedRight p mem
  | choice test mark yes colon no ihTest ihYes ihNo =>
    obtain ⟨⟨isMark, isColon⟩, ⟨groupedTest, _⟩, ⟨groupedYes, _⟩, groupedNo, _⟩ := grouped
    simp only [pieces, List.mem_append, List.mem_cons]
    rintro p (mem | rfl | mem | rfl | mem)
    · exact ihTest groupedTest p mem
    · exact .inr (.inl ⟨"?", by simp, isMark⟩)
    · exact ihYes groupedYes p mem
    · exact .inr (.inl ⟨":", by simp, isColon⟩)
    · exact ihNo groupedNo p mem
  | comma first sign rest ihFirst ihRest =>
    obtain ⟨isSign, ⟨groupedFirst, _⟩, groupedRest⟩ := grouped
    simp only [pieces, List.mem_append, List.mem_cons]
    rintro p (mem | rfl | mem)
    · exact ihFirst groupedFirst p mem
    · exact .inr (.inl ⟨",", by simp, isSign⟩)
    · exact ihRest groupedRest p mem

/-- The second piece of a phrase is no colon. -/
theorem Grouped.second_ne_colon {φ : Phrase} (grouped : φ.Grouped) {more : List Piece}
    (behind : ∀ q ∈ more.head?, q.isPunct ":" = false) :
    ∀ q ∈ (φ.pieces ++ more).tail.head?, q.isPunct ":" = false := by
  have opens : ∀ {ψ : Phrase}, ψ.Grouped → ∀ others : List Piece,
      ∀ q ∈ (ψ.pieces ++ others).head?, q.isPunct ":" = false := by
    intro ψ inside others q mem
    obtain ⟨tail, parts⟩ := ψ.pieces_eq_cons
    rw [parts] at mem
    obtain rfl : ψ.first = q := by simpa using mem
    rcases inside.first_cases with operand | isOpen | ⟨op, sign, _⟩
    · exact Token.isPunct_eq_false_of_isOperand operand _
    · exact isPunct_ne isOpen (by decide)
    · exact Token.isPunct_eq_false_of_signOp? sign (by decide)
  induction φ generalizing more with
  | atom word => exact behind
  | group left inner right ih =>
    simpa [pieces] using opens grouped.2.1 ([right] ++ more)
  | signed sign op operand ih =>
    simpa [pieces] using opens grouped.2.1 more
  | linked op left sign right ih _ =>
    rw [pieces, List.append_assoc]
    refine ih grouped.2.1.1 fun q mem => ?_
    obtain rfl : sign = q := by simpa using mem
    by_contra colon
    rw [Bool.not_eq_false] at colon
    have sign : sign.linkOp? = some op := grouped.1
    rw [Piece.linkOp?, Token.ofToken?_eq_none_of_isPunct colon (by decide) (by decide)] at sign
    cases sign
  | choice test mark yes colon no ih _ _ =>
    rw [pieces, List.append_assoc]
    refine ih grouped.2.1.1 fun q mem => ?_
    obtain rfl : mark = q := by simpa using mem
    exact isPunct_ne grouped.1.1 (by decide)
  | comma first sign rest ih _ =>
    rw [pieces, List.append_assoc]
    refine ih grouped.2.1.1 fun q mem => ?_
    obtain rfl : sign = q := by simpa using mem
    exact isPunct_ne grouped.1 (by decide)

/-! ## Reading a statement -/

/-- The keywords that start statements. -/
def statementWords : List String :=
  ["var", "let", "const", "function", "if", "for", "while", "do", "return", "throw", "break",
   "continue", "try", "switch", "class", "import", "export", "with", "debugger"]

theorem keywordStatement?_eq_none {p : Productions} {state : State}
    (other : state.current.text ∉ statementWords) : keywordStatement? p state = none := by
  unfold keywordStatement?
  dsimp only
  split
  case h_20 => rfl
  all_goals
    next text =>
    refine absurd ?_ other
    rw [text]
    decide

/-- No other kind of statement starts like a phrase. -/
theorem Grouped.statementAhead?_eq_none {φ : Phrase} (grouped : φ.Grouped) {p : Productions}
    {state : State} {more : List Piece} (start : Start 0 (φ.pieces ++ more) state)
    (quiet : Token.Quiet state.stop state.rest)
    (behind : ∀ q ∈ more.head?, q.isPunct ":" = false) : statementAhead? p state = none := by
  obtain ⟨others, parts⟩ := φ.pieces_eq_cons
  have second := grouped.second_ne_colon behind
  rw [parts, List.cons_append] at start second
  have here := start.current_cons
  have noColon : (state.peek 1).isPunct ":" = false := by
    have next := start.next
    rw [peek_one]
    cases rest : others ++ more with
    | nil =>
      rw [rest] at next
      rw [State.current, State.peek, next.rest]
      simp [Token.isPunct, next.ends]
    | cons q rs =>
      rw [rest] at next second
      rw [next.current_cons]
      exact second q rfl
  have noPunct : ∀ text ∈ ["\x7b", ";"], state.current.isPunct text = false := by
    intro text mem
    rw [here]
    rcases grouped.first_cases with operand | isOpen | ⟨op, sign, _⟩
    · exact Token.isPunct_eq_false_of_isOperand operand _
    · refine isPunct_ne isOpen ?_
      rintro rfl
      simp at mem
    · refine Token.isPunct_eq_false_of_signOp? sign ?_
      exact (by decide : ∀ text ∈ ["\x7b", ";"], UnaryOp.ofText? text = none) text mem
  have noWord : ∀ text ∈ statementWords, state.current.isKeyword text = false := by
    intro text mem
    rw [here]
    refine grouped.isKeyword_first ?_ ?_ 0
    · exact (by decide : ∀ text ∈ statementWords, text ∉ ["null", "true", "false"]) text mem
    · exact (by decide : ∀ text ∈ statementWords, UnaryOp.ofText? text = none) text mem
  unfold statementAhead?
  dsimp only
  split
  · next kind =>
    have brace := noPunct "\x7b" (by simp)
    have semicolon := noPunct ";" (by simp)
    simp only [Token.isPunct, kind, decide_true, Bool.true_and, decide_eq_false_iff_not] at brace semicolon
    rw [if_neg brace, if_neg semicolon]
  · next kind =>
    refine keywordStatement?_eq_none fun mem => ?_
    have word := noWord _ mem
    simp [Token.isKeyword, kind] at word
  · rw [if_neg (by simp [State.asyncFunctionAhead_eq_false quiet]), if_neg (by simp [noColon])]
  · rfl

theorem statement_eq_ok {p : Productions} {state state' : State} {s : Stmt Mark} :
    Grammar.statement p state = .ok s state' ↔
      (∃ production, statementAhead? p state = some production ∧ production state = .ok s state') ∨
      (statementAhead? p state = none ∧ ∃ value middle behind,
        expression p state = .ok value middle ∧ endStatement middle = .ok () behind ∧
          .expression (behind.stmtMarkFrom state.current.span.start) value = s ∧
            behind.growStmt s = state') := by
  simp only [Grammar.statement, bind_eq_ok, get_eq_ok]
  constructor
  · rintro ⟨_, _, ⟨rfl, rfl⟩, run⟩
    cases ahead : statementAhead? p state with
    | some production =>
      rw [ahead] at run
      exact .inl ⟨production, rfl, run⟩
    | none =>
      rw [ahead] at run
      simp only [expressionStatement, bind_eq_ok, current_eq_ok, finishStmt_eq_ok] at run
      obtain ⟨_, _, ⟨rfl, rfl⟩, value, middle, read, _, behind, ends, rfl, rfl⟩ := run
      exact .inr ⟨rfl, value, middle, behind, read, ends, rfl, rfl⟩
  · rintro (⟨production, ahead, run⟩ | ⟨ahead, value, middle, behind, read, ends, rfl, rfl⟩)
    · exact ⟨_, _, ⟨rfl, rfl⟩, by rwa [ahead]⟩
    · refine ⟨_, _, ⟨rfl, rfl⟩, ?_⟩
      rw [ahead]
      simp only [expressionStatement, bind_eq_ok, current_eq_ok, finishStmt_eq_ok]
      exact ⟨_, _, ⟨rfl, rfl⟩, value, middle, read, (), behind, ends, rfl, rfl⟩

/-- A phrase in front of a semicolon or of the end is read as a statement. -/
theorem Grouped.statement {φ : Phrase} (grouped : φ.Grouped) {depth : Nat} {state : State}
    {more : List Piece} (deep : φ.pieces.length ≤ depth) (start : Start 0 (φ.pieces ++ more) state)
    (mode : state.noIn = false) (quiet : Token.Quiet state.stop state.rest)
    (ending : more = [] ∨ ∃ semicolon, more = [semicolon] ∧ semicolon.isPunct ";" = true) :
    ∃ mark state', Grammar.statement (Productions.upTo depth) state =
        .ok (.expression mark (φ.node state.exprs.size 0)) state' ∧
      state'.current.kind = .eof ∧
        state'.exprs = state.exprs ++ (φ.nodes state.exprs.size 0).toArray ∧
          state'.stmts = state.stmts.push (.expression mark (φ.node state.exprs.size 0)) := by
  rcases ending with rfl | ⟨semicolon, rfl, isSemicolon⟩
  · have ahead : φ.Ahead 0 [] state :=
      ⟨by simpa using start.rest, mode, quiet, by simp [Token.isFollower, start.ends]⟩
    have none := grouped.statementAhead?_eq_none (p := Productions.upTo depth) start quiet (by simp)
    have read := grouped.reads.whole depth deep ahead (.of_eof start.ends)
    have stops : (φ.behind 0 [] state).current = state.stop := current_behind ..
    have ends : endStatement (φ.behind 0 [] state) = .ok () (φ.behind 0 [] state) :=
      endStatement_eq_ok.2 (.inr ⟨by simp [stops, Token.isPunct, start.ends],
        by simp [endsStatement, stops, start.ends], rfl⟩)
    refine ⟨_, _, statement_eq_ok.2 (.inr ⟨none, _, _, _, read, ends, rfl, rfl⟩), ?_, rfl, rfl⟩
    exact (congrArg Token.kind stops).trans start.ends
  · have rest : state.rest = Piece.tokens 0 φ.pieces ++ [semicolon.token φ.bytes] := by
      rw [start.rest, Piece.tokens_append]
      simp [bytes]
    have ahead : φ.Ahead 0 [semicolon.token φ.bytes] state :=
      ⟨rest, mode, quiet, isFollower_of_isPunct isSemicolon (by decide)⟩
    have noColon : ∀ q ∈ [semicolon].head?, q.isPunct ":" = false := by
      intro q mem
      obtain rfl : semicolon = q := by simpa using mem
      exact isPunct_ne isSemicolon (by decide)
    have none := grouped.statementAhead?_eq_none (p := Productions.upTo depth) start quiet noColon
    have read := grouped.reads.whole depth deep ahead
      ⟨loose_of_isPunct isSemicolon (by decide) (by decide) 0, isPunct_ne isSemicolon (by decide),
        isPunct_ne isSemicolon (by decide)⟩
    have ends : endStatement (φ.behind 0 [semicolon.token φ.bytes] state) =
        .ok () (φ.behind 0 [semicolon.token φ.bytes] state).next :=
      endStatement_eq_ok.2 (.inl ⟨isSemicolon, rfl⟩)
    exact ⟨_, _, statement_eq_ok.2 (.inr ⟨none, _, _, _, read, ends, rfl, rfl⟩), start.ends, rfl, rfl⟩

theorem Start.eq_nil {offset : Nat} {ps : List Piece} {state : State}
    (start : Start offset ps state) (kinds : ∀ p ∈ ps, p.kind ≠ .eof)
    (stops : state.current.kind = .eof) : ps = [] := by
  cases ps with
  | nil => rfl
  | cons p ps =>
    rw [start.current_cons] at stops
    exact absurd stops (kinds p (List.mem_cons_self ..))

/-- Where the end of a statement is the end of the row, at most a semicolon was left to read. -/
theorem Reached.ending {ps row qs : List Piece} {middle after : State}
    (reached : Reached 0 ps row qs middle) (kinds : ∀ p ∈ ps, p.kind ≠ .eof)
    (ending : endStatement middle = .ok () after) (stops : after.current.kind = .eof) :
    (qs = [] ∨ ∃ semicolon, qs = [semicolon] ∧ semicolon.isPunct ";" = true) ∧
      List.IsChain Piece.Calm ps := by
  obtain ⟨rfl, start, calm, _⟩ := reached
  have kinds : ∀ p ∈ qs, p.kind ≠ .eof := fun p mem => kinds p (List.mem_append_right _ mem)
  obtain ⟨isSemicolon, rfl⟩ | ⟨_, _, rfl⟩ := endStatement_eq_ok.1 ending
  · obtain ⟨semicolon, rs, rfl⟩ := start.eq_cons (kind_ne_eof_of_isPunct isSemicolon)
    obtain rfl := start.next.eq_nil (fun p mem => kinds p (List.mem_cons_of_mem _ mem)) stops
    rw [start.current_cons] at isSemicolon calm
    refine ⟨.inr ⟨semicolon, rfl, isSemicolon⟩, (Piece.isChain_tokens start.ends 0).1 ?_⟩
    rw [Piece.tokens_append, List.append_assoc]
    exact List.isChain_split.2 ⟨calm, List.isChain_pair.2 (calm_of_isPunct isSemicolon)⟩
  · obtain rfl := start.eq_nil kinds stops
    rw [List.append_nil]
    exact ⟨.inl rfl, (Piece.isChain_tokens stops 0).1 calm⟩

end Phrase

/-! ## Sentences -/

/-- A phrase, what ends it, and the gap at the end of the source. -/
structure Sentence where
  phrase : Phrase
  ending : List Piece
  final : List Char

namespace Sentence

/-- All pieces of a sentence. -/
def pieces (s : Sentence) : List Piece :=
  s.phrase.pieces ++ s.ending

/-- The text of a sentence. -/
def source (s : Sentence) : String :=
  String.ofList (Piece.render s.pieces s.final)

/-- The node of a sentence. -/
def node (s : Sentence) : Expr Mark :=
  s.phrase.node 0 0

/-- The sentence can be read: its phrase is grouped, nothing but a semicolon ends it, its
pieces fit, and no `await` in it waits for anything. -/
structure Sound (s : Sentence) : Prop where
  grouped : s.phrase.Grouped
  ending : s.ending = [] ∨ ∃ semicolon, s.ending = [semicolon] ∧ semicolon.isPunct ";" = true
  fits : Piece.Fits true s.pieces s.final
  calm : List.IsChain Piece.Calm s.pieces

/-- The program is what reading the sentence finds. -/
structure IsRead (s : Sentence) (program : Program) : Prop where
  source : program.source = s.source
  tokens : program.tokens = (Piece.tokens 0 s.pieces).toArray
  exprs : program.exprs = (s.phrase.nodes 0 0).toArray
  body : ∃ mark, program.body = [.expression mark s.node] ∧
    program.stmts = #[.expression mark s.node]
  parents : program.parents = Parents.ofNodes program.exprs program.stmts

theorem IsRead.node_eq {s : Sentence} {program : Program} (isRead : s.IsRead program) {mark : Mark}
    {e : Expr Mark} (body : program.body = [.expression mark e]) : s.node = e := by
  obtain ⟨_, same, _⟩ := isRead.body
  rw [body] at same
  cases same
  rfl

theorem Sound.isStill {s : Sentence} (sound : s.Sound) :
    ∀ p ∈ s.pieces, ∀ offset, (p.token offset).isStill = true := by
  intro p mem offset
  rcases List.mem_append.1 mem with mem | mem
  · exact (sound.grouped.isPlain p mem).isStill offset
  · rcases sound.ending with none | ⟨semicolon, one, isSemicolon⟩
    · rw [none] at mem
      cases mem
    · rw [one, List.mem_singleton] at mem
      subst mem
      rw [Token.isStill, Bool.and_eq_true, Bool.not_eq_true', Bool.not_eq_true']
      exact ⟨Phrase.isPunct_ne isSemicolon (by decide), Token.isKeyword_eq_false_of_isPunct isSemicolon _⟩

/-- A sound sentence is a quiet row. -/
theorem Sound.quiet {s : Sentence} (sound : s.Sound) {stop : Token} (ends : stop.kind = .eof) :
    Token.Quiet stop (Piece.tokens 0 s.pieces) where
  ends := ends
  still token mem := by
    obtain ⟨p, inside, place, rfl⟩ := Piece.mem_tokens mem
    exact sound.isStill p inside place
  calm := (Piece.isChain_tokens ends 0).2 sound.calm

theorem readProgram_eq_ok {state state' : State} {body : List (Stmt Mark)} :
    readProgram state = .ok body state' ↔
      manyUpTo atEnd (Grammar.statement (Productions.upTo state.rest.length))
        (state.rest.length + 1) state = .ok body state' := by
  simp only [readProgram, productions, bind_eq_ok, get_eq_ok, pure_eq_ok, manyUntil_eq_ok]
  constructor
  · rintro ⟨_, _, ⟨_, _, ⟨rfl, rfl⟩, rfl, rfl⟩, run⟩
    exact run
  · intro run
    exact ⟨_, _, ⟨_, _, ⟨rfl, rfl⟩, rfl, rfl⟩, run⟩

theorem parse_eq_ok {source : String} {program : Program} :
    Program.parse source = .ok program ↔
      ∃ row state' body, TokenRow.ofString source = .ok row ∧
        readProgram (State.ofRow row) = .ok body state' ∧
          program = Program.ofState source row state' body := by
  unfold Program.parse Program.readTokens
  cases read : TokenRow.ofString source with
  | error cause => simp [Except.mapError, bind, Except.bind]
  | ok row =>
    simp only [Except.mapError, bind, Except.bind, Program.ofTokens, EStateM.run,
      Except.ok.injEq, exists_eq_left', exists_and_left]
    cases run : readProgram (State.ofRow row) with
    | error cause state' => simp
    | ok body state' => simp [eq_comm]

theorem Sound.exists_row {s : Sentence} (sound : s.Sound) :
    ∃ row, TokenRow.ofString s.source = .ok row ∧ row.tokens = Piece.tokens 0 s.pieces ∧
      row.stop.kind = .eof :=
  ⟨_, TokenRow.ofString_of_fits sound.fits, rfl, rfl⟩

/-- **A sound sentence is read, as the node of its phrase.** -/
theorem Sound.parse {s : Sentence} (sound : s.Sound) :
    ∃ program, Program.parse s.source = .ok program ∧ s.IsRead program := by
  obtain ⟨row, read, tokens, ends⟩ := sound.exists_row
  have start : Phrase.Start 0 s.pieces (State.ofRow row) := ⟨tokens, ends⟩
  have quiet : Token.Quiet (State.ofRow row).stop (State.ofRow row).rest := by
    rw [start.rest]
    exact sound.quiet ends
  have length : (State.ofRow row).rest.length = s.pieces.length := by
    rw [start.rest, Piece.tokens_length]
  have deep : s.phrase.pieces.length ≤ (State.ofRow row).rest.length := by
    rw [length, pieces, List.length_append]
    omega
  obtain ⟨mark, state', run, stops, exprs, stmts⟩ :=
    sound.grouped.statement deep start rfl quiet sound.ending
  have goes : (State.ofRow row).current.kind ≠ .eof := by
    obtain ⟨others, parts⟩ := s.phrase.pieces_eq_cons
    have kinds := sound.fits.kind_ne_eof
    rw [pieces, parts] at start kinds
    rw [start.current_cons]
    exact kinds _ (List.mem_cons_self ..)
  have whole : readProgram (State.ofRow row) = .ok [.expression mark s.node] state' := by
    refine readProgram_eq_ok.2 (manyUpTo_succ.2 (.inr ⟨_, _, _, [], ?_, run, ?_, rfl⟩))
    · exact atEnd_eq_ok.2 ⟨by simp [goes], rfl⟩
    · obtain ⟨bound, more⟩ := Nat.exists_eq_add_one.2
        (lt_of_lt_of_le s.phrase.length_pieces_pos deep)
      rw [more]
      exact manyUpTo_succ.2 (.inl ⟨atEnd_eq_ok.2 ⟨by simp [stops], rfl⟩, rfl⟩)
  refine ⟨_, parse_eq_ok.2 ⟨row, state', _, read, whole, rfl⟩, rfl, ?_, ?_, ?_, rfl⟩
  · exact congrArg List.toArray tokens
  · exact exprs.trans (Array.empty_append ..)
  · exact ⟨mark, rfl, stmts⟩

/-- **Every source that is one plain expression is a sound sentence.** -/
theorem of_parse {source : String} {program : Program} {mark : Mark} {e : Expr Mark}
    (read : Program.parse source = .ok program) (body : program.body = [.expression mark e])
    (plain : e.isPlain = true) : ∃ s : Sentence, s.Sound ∧ s.source = source ∧ s.IsRead program := by
  obtain ⟨row, state', _, lexed, run, rfl⟩ := parse_eq_ok.1 read
  obtain rfl : _ = [Stmt.expression mark e] := body
  obtain ⟨ps, final, text, fits, isRow⟩ := TokenRow.fits_of_ofString lexed
  have start : Phrase.Start 0 ps (State.ofRow row) := isRow ▸ ⟨rfl, rfl⟩
  obtain ⟨_, none⟩ | ⟨_, first, behind, others, goes, one, more, same⟩ :=
    manyUpTo_succ.1 (readProgram_eq_ok.1 run)
  · cases none
  obtain ⟨rfl, rfl⟩ := List.cons.inj same
  obtain ⟨goes, rfl⟩ := atEnd_eq_ok.1 goes
  -- nothing is left behind the statement
  have stops : behind.current.kind = .eof := by
    cases bound : (State.ofRow row).rest.length with
    | zero =>
      rw [bound] at more
      exact absurd more manyUpTo_zero
    | succ bound' =>
      rw [bound] at more
      obtain ⟨stops, _⟩ | ⟨_, _, _, _, _, _, _, cons⟩ := manyUpTo_succ.1 more
      · simpa using (atEnd_eq_ok.1 stops).1
      · cases cons
  obtain ⟨production, ahead, found⟩ | ⟨_, value, middle, after, inside, ending, same, rfl⟩ :=
    Phrase.statement_eq_ok.1 one
  · exact absurd rfl ((yields_of_statementAhead? ahead).yields found mark e)
  obtain ⟨rfl, rfl⟩ := Stmt.expression.inj same
  obtain ⟨φ, ⟨grouped, ⟨qs, reached⟩, _, _⟩, _⟩ := Phrase.finds_sequence
    Phrase.finds_assignment start inside plain
  obtain ⟨ending, calm⟩ := reached.ending fits.kind_ne_eof ending stops
  let s : Sentence := ⟨φ, qs, final⟩
  have pieces : s.pieces = ps := reached.parts.symm
  have sound : s.Sound := ⟨grouped, ending, pieces ▸ fits, pieces ▸ calm⟩
  have same : s.source = source := by
    rw [Sentence.source, pieces, ← text]
    exact String.ofList_toList ..
  obtain ⟨program, again, isRead⟩ := sound.parse
  rw [same, read] at again
  obtain rfl := Except.ok.inj again
  exact ⟨s, sound, same, isRead⟩

end Sentence

end TidyScript
