import TidyScript.Proofs.Grammar.StatementLayout
import TidyScript.Proofs.Text.Answer
import TidyScript.Proofs.Token.Search

/-!
# Programs on their source

In a program that has been read, all tokens and comments have the texts that the source has at their
places, and all nodes are placed on the tokens. The tokens stand one behind the other, so searching
them finds what scanning them finds. The text of every node can be cut out of the source, and so can
the text from one node to a later one in the same list.
-/

namespace TidyScript

open Text (Boundary Shows)

namespace Program

/-- How many nodes the program has. -/
def census (program : Program) : Census :=
  ⟨program.exprs.size, program.stmts.size⟩

/-- The tokens of the program stand on its source and the nodes of the program on its tokens. -/
structure Seated (program : Program) : Prop where
  ordered : program.tokens.toList.Pairwise fun a b => a.span.stop ≤ b.span.start
  written : ∀ token ∈ program.tokens, token.span.start < token.span.stop
  tokens : ∀ token ∈ program.tokens, Shows program.source token.span token.text
  comments : ∀ comment ∈ program.comments, Shows program.source comment.span comment.text
  exprs : ∀ e ∈ program.exprs, (Node.expr e).Placed program.tokens.toList program.census
  stmts : ∀ s ∈ program.stmts, (Node.stmt s).Placed program.tokens.toList program.census
  body : ∃ low high,
    Node.Laid program.tokens.toList program.census true low (program.body.map .stmt) high
  parents : program.parents = Parents.ofNodes program.exprs program.stmts

/-! ## Reading -/

variable {source : String} {row : TokenRow} {program : Program} {e : Expr Mark}

theorem exists_row_of_readTokens (read : readTokens source = .ok row) :
    TokenRow.ofString source = .ok row := by
  unfold readTokens Except.mapError at read
  split at read
  · cases read
  · cases read
    assumption

/-- Before the row of a source, the first state stands. -/
theorem stands_of_readTokens (read : readTokens source = .ok row) :
    (Grammar.State.ofRow row).Stands row [] :=
  Grammar.State.stands_ofRow (TokenRow.lined_of_ofString (exists_row_of_readTokens read))

/-- The program of a state that stands in the row of a source. -/
theorem seated_ofState (read : readTokens source = .ok row) {state : Grammar.State}
    {body : List (Stmt Mark)} {low high : Nat} (stands : state.Stands row (body.map .stmt))
    (laid : Node.Laid row.tokens state.census true low (body.map .stmt) high) :
    (ofState source row state body).Seated := by
  have lined := TokenRow.lined_of_ofString (exists_row_of_readTokens read)
  obtain ⟨tokens, comments⟩ := TokenRow.shows_of_ofString (exists_row_of_readTokens read)
  refine ⟨lined.ordered, ?_, ?_, comments, stands.exprs, stands.stmts, ⟨low, high, laid⟩, rfl⟩
  · simpa [ofState] using lined.written
  · simpa [ofState] using tokens

/-- A program is what reading all statements in the row of its source has found. -/
theorem exists_run_of_parse (read : parse source = .ok program) :
    ∃ row body state, readTokens source = .ok row ∧
      Grammar.readProgram (.ofRow row) = .ok body state ∧
        program = ofState source row state body := by
  unfold parse at read
  cases tokens : readTokens source with
  | error error => rw [tokens] at read; cases read
  | ok row =>
    rw [tokens] at read
    replace read : ofTokens source row (.ofRow row) = .ok program := read
    unfold ofTokens at read
    split at read
    · next body state run =>
      cases read
      exact ⟨row, body, state, rfl, run, rfl⟩
    · cases read

/-- **A program that has been read stands on its source.** -/
theorem seated_of_parse (read : parse source = .ok program) :
    program.source = source ∧ program.Seated := by
  obtain ⟨row, body, state, tokens, run, rfl⟩ := exists_run_of_parse read
  obtain ⟨stands, _, laid⟩ := Grammar.readProgram_reads row (stands_of_readTokens tokens) run
  exact ⟨rfl, seated_ofState tokens stands laid⟩

/-- The program of a single expression is what reading the row of its source has found. -/
theorem exists_run_of_parseExpression (read : parseExpression source = .ok (program, e)) :
    ∃ row x state, readTokens source = .ok row ∧
        Grammar.readSingleExpression (.ofRow row) = .ok (e, x) state ∧
          program = ofState source row state [x] := by
  unfold parseExpression at read
  cases tokens : readTokens source with
  | error error => rw [tokens] at read; cases read
  | ok row =>
    rw [tokens] at read
    dsimp only [bind, Except.bind] at read
    split at read
    · next value x state run =>
      cases read
      exact ⟨row, x, state, rfl, run, rfl⟩
    · cases read

/-- A single expression that has been read stands on its source. -/
theorem seated_of_parseExpression (read : parseExpression source = .ok (program, e)) :
    program.Seated ∧ (Node.expr e).Placed program.tokens.toList program.census := by
  obtain ⟨row, x, state, tokens, run, rfl⟩ := exists_run_of_parseExpression read
  obtain ⟨stands, _, laid⟩ :=
    Grammar.readSingleExpression_reads row (stands_of_readTokens tokens) run
  obtain ⟨_, rfl⟩ := Grammar.exists_expression_of_readSingleExpression run
  refine ⟨seated_ofState tokens stands laid, ?_⟩
  exact (laid.placed _ (List.mem_singleton_self _)).child _ (List.mem_singleton_self _)

/-- What has been read in either way stands on its source. -/
theorem seated_of_read
    (read : parse source = .ok program ∨ ∃ e, parseExpression source = .ok (program, e)) :
    program.Seated := by
  rcases read with read | ⟨e, read⟩
  · exact (seated_of_parse read).2
  · exact (seated_of_parseExpression read).1

/-! ## Searching -/

/-- **A search of the tokens finds what a scan of them finds.** The tokens inside a span are all
that start at its start or behind it and end at its end or in front of it, also if the span cuts
through tokens or runs backwards. The token from an offset on is the first that starts there or
behind it, and the token before an offset is the last that ends there or in front of it. -/
theorem search_eq_scan {source : String} {program : Program}
    (read : parse source = .ok program ∨ ∃ e, parseExpression source = .ok (program, e)) :
    (∀ span : Span, program.tokensIn span = program.tokens.toList.filter fun token =>
        span.start ≤ token.span.start ∧ token.span.stop ≤ span.stop) ∧
      (∀ offset, program.tokenFrom? offset =
        program.tokens.toList.find? fun token => offset ≤ token.span.start) ∧
      ∀ offset, program.tokenBefore? offset =
        (program.tokens.toList.filter fun token => token.span.stop ≤ offset).getLast? := by
  have seated := seated_of_read read
  refine ⟨fun span => ?_, tokenFrom?_eq_find? seated.ordered seated.written,
    tokenBefore?_eq_getLast? seated.ordered seated.written⟩
  simp only [tokensIn_eq_filter seated.ordered seated.written, Span.contains, Bool.decide_and]

/-- A span that cuts through its first token, one that runs backwards, and offsets inside tokens. -/
theorem search_eq_scan_cutting :
    ∃ program, parse "aa+bb;" = .ok program ∧
      (program.tokensIn ⟨1, 5⟩).map (·.text) = ["+", "bb"] ∧ program.tokensIn ⟨5, 2⟩ = [] ∧
      (program.tokenFrom? 1).map (·.text) = some "+" ∧
      (program.tokenBefore? 4).map (·.text) = some "+" := by
  have checked : Option.any (fun program =>
      let scan (span : Span) := program.tokens.toList.filter fun token =>
        span.start ≤ token.span.start ∧ token.span.stop ≤ span.stop
      (scan ⟨1, 5⟩).map (·.text) = ["+", "bb"] ∧ scan ⟨5, 2⟩ = [] ∧
        (program.tokens.toList.find? fun token => 1 ≤ token.span.start).map (·.text) = some "+" ∧
        (program.tokens.toList.filter fun token => token.span.stop ≤ 4).getLast?.map (·.text) =
          some "+") (parse "aa+bb;").toOption = true := by decide +kernel
  obtain ⟨program, read, checked⟩ := exists_ok_of_any checked
  obtain ⟨inside, first, last⟩ := search_eq_scan (.inl read)
  refine ⟨program, read, ?_⟩
  rw [inside, inside, first, last]
  exact of_decide_eq_true checked

/-! ## Cutting -/

/-- Tokens start and end at boundaries. -/
theorem Seated.edges (seated : program.Seated) : ∀ token ∈ program.tokens,
    Boundary program.source token.span.start ∧ Boundary program.source token.span.stop :=
  fun token mem =>
    ⟨(seated.tokens token mem).boundary_start, (seated.tokens token mem).boundary_stop⟩

theorem Seated.boundary_start (seated : program.Seated) {span : Span}
    (edged : span.Edged program.tokens.toList) : Boundary program.source span.start := by
  obtain ⟨token, mem, start⟩ := edged.start
  exact start ▸ (seated.edges token (by simpa using mem)).1

theorem Seated.boundary_stop (seated : program.Seated) {span : Span}
    (edged : span.Edged program.tokens.toList) : Boundary program.source span.stop := by
  obtain ⟨token, mem, stop⟩ := edged.stop
  exact stop ▸ (seated.edges token (by simpa using mem)).2

/-- The text from a boundary to a later one. -/
theorem exists_text {a b : Nat} (first : Boundary program.source a)
    (second : Boundary program.source b) (le : a ≤ b) : ∃ text, program.text ⟨a, b⟩ = .ok text :=
  Text.exists_cut first second le

/-- The text of a place on tokens. -/
theorem Seated.exists_text_of_edged (seated : program.Seated) {span : Span}
    (edged : span.Edged program.tokens.toList) : ∃ text, program.text span = .ok text :=
  exists_text (seated.boundary_start edged) (seated.boundary_stop edged) (Nat.le_of_lt edged.some)

end Program

end TidyScript
