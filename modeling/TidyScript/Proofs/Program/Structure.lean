import TidyScript.Logic.Equivalence
import TidyScript.Proofs.Grammar.StatementMeeting
import TidyScript.Proofs.Grammar.StatementSpan
import TidyScript.Proofs.Phrase.Sentence
import TidyScript.Proofs.Program.Seat
import TidyScript.Proofs.Text.Answer
import TidyScript.Proofs.Token.Search

/-!
# Code that reads the same

Lists of statements are compared by their rows of tokens, which tell neither where a statement ends
nor where a line starts. Two lists that read the same have the same statements, one by one, if their
rows are set alike and no name is written as a string. Without the first condition they need not:
behind the word `return`, a line break decides whether a value belongs to it.
-/

namespace TidyScript

open Grammar (Recital State Productions)

/-! ## Tokens of statements -/

namespace Program

variable {program : Program} {row : TokenRow} {s s' : State} {x : Stmt Mark}
  {xs ys : List (Stmt Mark)}

/-- A statement runs from the first token to the last one that reading it has taken. -/
theorem span_of_run {depth : Nat} (run : (Productions.upTo depth).statement s = .ok x s') :
    x.span = ⟨s.here, s'.lastEnd⟩ := by
  cases depth with
  | zero => exact absurd run Grammar.unexpected_ne_ok
  | succ depth => exact (Grammar.statement_spans (Productions.upTo depth)).spans run

/-- The tokens of a statement are those that reading it has taken. -/
theorem tokensIn_of_run {depth : Nat} (tokens : program.tokens = row.tokens.toArray)
    (lined : row.Lined) (suffix : s.rest <:+ row.tokens) (stop : s.stop = row.stop)
    (run : (Productions.upTo depth).statement s = .ok x s') :
    s.rest = program.tokensIn x.span ++ s'.rest := by
  have ends : s.Ends := (congrArg Token.kind stop).trans lined.ended
  have taken : s'.rest.length + 1 ≤ s.rest.length := Grammar.Takes.takes ends run
  obtain ⟨front, whole⟩ := suffix
  rcases (Grammar.Steps.steps run).taken with ⟨same, _⟩ | ⟨read, last, split, lastEnd⟩
  · rw [same] at taken
    exact absurd taken (Nat.not_succ_le_self _)
  replace split : s.rest = (read ++ [last]) ++ s'.rest := by simp [split]
  have head : (read ++ [last]).head? = some s.current := by
    rw [State.current, State.peek, split]
    cases read <;> rfl
  rw [split] at whole
  rw [← whole] at tokens
  have inside := tokensIn_eq tokens (whole ▸ lined.ordered) (whole ▸ lined.written) head
    (List.getLast?_concat ..)
  rw [span_of_run run, State.here, lastEnd, inside, split]

/-- The tokens of statements that have been read one behind the other. -/
theorem rest_of_recital (tokens : program.tokens = row.tokens.toArray) (lined : row.Lined)
    (recital : Recital s xs s') (suffix : s.rest <:+ row.tokens) (stop : s.stop = row.stop) :
    s.rest = program.rowOf xs ++ s'.rest := by
  induction recital with
  | nil => rfl
  | cons depth read more ih =>
    have here := tokensIn_of_run tokens lined suffix stop read
    have steps := Grammar.Steps.steps read
    rw [rowOf, List.flatMap_cons, List.append_assoc]
    rw [here]
    exact congrArg (_ ++ ·) (ih (steps.suffix.trans suffix) (steps.stop.trans stop))

/-! ## Lists of statements in a program -/

/-- The lists of statements in a program: the one at the top and those in its nodes. -/
def lists (program : Program) : List (List (Stmt Mark)) :=
  program.body ::
    (program.stmts.toList.flatMap Stmt.lists ++ program.exprs.toList.flatMap Expr.lists)

/-- The statements stand one behind the other in a list of the program. -/
def Occurs (program : Program) (body : List (Stmt Mark)) : Prop :=
  ∃ list ∈ program.lists, body <:+: list

theorem occurs_of_mem_lists (mem : xs ∈ program.lists) : program.Occurs xs :=
  ⟨xs, mem, List.infix_rfl⟩

theorem isInfix_withoutFinalReturns (body : List (Stmt Mark)) :
    withoutFinalReturns body <:+: body := by
  refine List.IsPrefix.isInfix (List.reverse_suffix.1 ?_)
  rw [withoutFinalReturns, List.reverse_reverse]
  exact List.dropWhile_suffix _

theorem Occurs.withoutFinalReturns (occurs : program.Occurs xs) :
    program.Occurs (withoutFinalReturns xs) := by
  obtain ⟨list, found, part⟩ := occurs
  exact ⟨list, found, (isInfix_withoutFinalReturns xs).trans part⟩

/-- The statements of a program have been read one behind the other. -/
theorem recital_of_readProgram (run : Grammar.readProgram s = .ok xs s') : Recital s xs s' :=
  Grammar.recital_of_manyUpTo (fun asked => (Grammar.atEnd_eq_ok.1 asked).2)
    (fun one => .cons (_ + 1) one (.nil _)) (Sentence.readProgram_eq_ok.1 run)

theorem told_ofRow (row : TokenRow) : (State.ofRow row).Told row where
  suffix := List.suffix_refl _
  stop := rfl
  lists list has := by simp [State.Has, State.ofRow] at has

/-- The statements have been read one behind the other, in the row of the program, and no name is
written as a string in them unless one is in the program. -/
structure Reading (program : Program) (row : TokenRow) (first : State) (body : List (Stmt Mark))
    (last : State) : Prop where
  recital : Recital first body last
  suffix : first.rest <:+ row.tokens
  stop : first.stop = row.stop
  quoted : last.HasQuotedName → ∃ e ∈ program.exprs, e.isQuotedName = true

/-- Statements that stand one behind the other in a program have been read so. -/
theorem exists_reading_of_occurs {source : String} (read : parse source = .ok program) :
    ∃ row : TokenRow, TokenRow.ofString source = .ok row ∧ program.tokens = row.tokens.toArray ∧
      program.comments = row.comments ∧
        ∀ {body}, program.Occurs body → ∃ first last, program.Reading row first body last := by
  obtain ⟨row, body, state, tokens, run, rfl⟩ := exists_run_of_parse read
  have whole := recital_of_readProgram run
  have told := whole.steps.told row (told_ofRow row)
  refine ⟨row, exists_row_of_readTokens tokens, rfl, rfl, fun ⟨list, found, part⟩ => ?_⟩
  have recited : state.Recited row list := by
    rcases List.mem_cons.1 found with rfl | inNode
    · exact ⟨_, _, whole, List.suffix_refl _, rfl, id⟩
    · simp only [List.mem_append, List.mem_flatMap, Array.mem_toList_iff] at inNode
      exact told.lists list inNode
  obtain ⟨first, last, recital, suffix, stop, quoted⟩ := recited
  obtain ⟨first', last', before, recital', behind⟩ := recital.exists_of_isInfix part
  exact ⟨first', last', recital', before.suffix.trans suffix, before.stop.trans stop,
    fun has => quoted (behind.quoted has)⟩

/-! ## Lists that read the same -/

/-- The strings of a source are in quotes. -/
theorem quoted_of_ofString {source : String} (read : TokenRow.ofString source = .ok row)
    {token : Token} (mem : token ∈ row.tokens) {value : String}
    (isString : token.kind = .string value) :
    token.text.toList.head?.any Token.isQuote = true := by
  obtain ⟨ps, final, _, fits, rfl⟩ := TokenRow.fits_of_ofString read
  obtain ⟨p, inside, place, rfl⟩ := Piece.mem_tokens mem
  obtain ⟨regexAllowed, rest, stands⟩ := fits.stands p inside
  obtain ⟨c, tail, parts, form⟩ := stands.lexes.form 0
  have text : (p.token place).text.toList.head? = some c := by
    simp [Piece.token, parts]
  rw [text, Option.any_some]
  replace isString : p.kind = .string value := isString
  generalize p.kind = kind at form isString
  cases form with
  | word =>
    rcases Token.wordKind_cases (String.ofList ((c :: (tail ++ rest)).take p.text.length))
      with is | is
    all_goals cases is.symm.trans isString
  | string _ _ quote => exact quote
  | number | template | regex | punctuator => cases isString

theorem mem_tokens_of_mem_rowOf {token : Token} (mem : token ∈ program.rowOf xs) :
    token ∈ program.tokens := by
  obtain ⟨x, _, inside⟩ := List.mem_flatMap.1 mem
  simp only [tokensIn, Array.toList_extract, List.extract_eq_take_drop] at inside
  exact Array.mem_toList_iff.1 (List.mem_of_mem_drop (List.mem_of_mem_take inside))

/-- **Lists of statements that read the same have the same structure**, whatever their layout and
the quotes of their strings, if they are set alike and no name is written as a string. They are of
one length then, and equal one by one except for where they stand. -/
theorem bare_eq_of_sameSequence {source : String} (read : parse source = .ok program)
    (occurs : program.Occurs xs) (occurs' : program.Occurs ys)
    (same : program.sameSequence xs ys = true)
    (set : Token.setAlike [] (program.rowOf (withoutFinalReturns xs))
      (program.rowOf (withoutFinalReturns ys)) = true)
    (unquoted : ∀ e ∈ program.exprs, e.isQuotedName = false) :
    (withoutFinalReturns xs).map Stmt.bare = (withoutFinalReturns ys).map Stmt.bare := by
  obtain ⟨row, found, tokens, -, readings⟩ := exists_reading_of_occurs read
  have lined := TokenRow.lined_of_ofString found
  obtain ⟨s, s', first⟩ := readings occurs.withoutFinalReturns
  obtain ⟨t, t', second⟩ := readings occurs'.withoutFinalReturns
  have abreast := Token.abreast_of_setAlike same set fun token mem value isString =>
    quoted_of_ofString found (by simpa [tokens] using mem_tokens_of_mem_rowOf mem) isString
  have beside : Grammar.Beside s'.rest t'.rest s t :=
    ⟨⟨[], _, _, abreast, rest_of_recital tokens lined first.recital first.suffix first.stop,
      rest_of_recital tokens lined second.recital second.suffix second.stop⟩,
      (congrArg Token.kind first.stop).trans lined.ended, first.stop.trans second.stop.symm⟩
  have noName : ¬ ∃ e ∈ program.exprs, e.isQuotedName = true := by
    simpa using unquoted
  exact first.recital.bare_eq second.recital beside (noName ∘ first.quoted) (noName ∘ second.quoted)

theorem bare_eq_of_sameSequence_layout : ∃ (program : Program) (xs ys : List (Stmt Mark)),
    parse "\x7ba(\"x\"); return b\x7d\x7ba('x')\n;\nreturn b\nreturn\x7d" = .ok program ∧
      program.Occurs xs ∧ program.Occurs ys ∧ xs.length = 2 ∧ ys.length = 3 ∧
        program.sameSequence xs ys = true ∧
          Token.setAlike [] (program.rowOf (withoutFinalReturns xs))
            (program.rowOf (withoutFinalReturns ys)) = true ∧
          (∀ e ∈ program.exprs, e.isQuotedName = false) ∧
            (withoutFinalReturns xs).map Stmt.bare = (withoutFinalReturns ys).map Stmt.bare := by
  have checked :
      (parse "\x7ba(\"x\"); return b\x7d\x7ba('x')\n;\nreturn b\nreturn\x7d").toOption.any
      (fun program => program.lists.any fun xs => program.lists.any fun ys =>
          xs.length = 2 && ys.length = 3 && program.sameSequence xs ys &&
            Token.setAlike [] (program.rowOf (withoutFinalReturns xs))
              (program.rowOf (withoutFinalReturns ys)) &&
            program.exprs.toList.all fun e => !e.isQuotedName) = true := by decide +kernel
  obtain ⟨program, read, checked⟩ := exists_ok_of_any checked
  obtain ⟨xs, mem, checked⟩ := List.any_eq_true.1 checked
  obtain ⟨ys, mem', checked⟩ := List.any_eq_true.1 checked
  simp only [Bool.and_eq_true, decide_eq_true_eq, List.all_eq_true, Bool.not_eq_true',
    Array.mem_toList_iff] at checked
  obtain ⟨⟨⟨⟨two, three⟩, same⟩, set⟩, unquoted⟩ := checked
  have occurs := occurs_of_mem_lists mem
  have occurs' := occurs_of_mem_lists mem'
  exact ⟨program, xs, ys, read, occurs, occurs', two, three, same, set, unquoted,
    bare_eq_of_sameSequence read occurs occurs' same set unquoted⟩

/-- A line break behind the word `return` makes two statements out of one, and the lists still read
the same. -/
theorem sameSequence_broken_return : ∃ (program : Program) (xs ys : List (Stmt Mark)),
    parse "function f()\x7b\x7breturn\nb\x7d\x7breturn b\x7d\x7d" = .ok program ∧
      program.Occurs xs ∧ program.Occurs ys ∧ program.sameSequence xs ys = true ∧
        (∀ e ∈ program.exprs, e.isQuotedName = false) ∧
          (withoutFinalReturns xs).length = 2 ∧ (withoutFinalReturns ys).length = 1 := by
  have checked : (parse "function f()\x7b\x7breturn\nb\x7d\x7breturn b\x7d\x7d").toOption.any
      (fun program => program.lists.any fun xs => program.lists.any fun ys =>
          program.sameSequence xs ys && (program.exprs.toList.all fun e => !e.isQuotedName) &&
            (withoutFinalReturns xs).length = 2 && (withoutFinalReturns ys).length = 1) = true := by
    decide +kernel
  obtain ⟨program, read, checked⟩ := exists_ok_of_any checked
  obtain ⟨xs, mem, checked⟩ := List.any_eq_true.1 checked
  obtain ⟨ys, mem', checked⟩ := List.any_eq_true.1 checked
  simp only [Bool.and_eq_true, decide_eq_true_eq, List.all_eq_true, Bool.not_eq_true',
    Array.mem_toList_iff] at checked
  obtain ⟨⟨⟨same, unquoted⟩, two⟩, one⟩ := checked
  exact ⟨program, xs, ys, read, occurs_of_mem_lists mem,
    occurs_of_mem_lists mem', same, unquoted, two, one⟩

end Program

end TidyScript
