import TidyScript.Proofs.Grammar.Run

/-!
# Runs of the productions of operators

What a successful run of a production has done: which productions it has called in which
states, and the node it has completed. The productions from single operands up to sequences
are taken apart here, one statement for each.
-/

namespace TidyScript.Grammar

variable {α : Type} {p : Productions} {state state' : State} {e left : Expr Mark}
  {step : α → Parse (Option α)} {v w : α} {stop : Parse Bool} {item : Parse α} {items : List α}
  {bound least : Nat}

/-! ## Loops -/

theorem extendUpTo_zero : ¬ extendUpTo step 0 v state = .ok w state' :=
  unexpected_ne_ok

theorem extendUpTo_succ :
    extendUpTo step (bound + 1) v state = .ok w state' ↔
      (step v state = .ok none state' ∧ v = w) ∨
        ∃ longer middle, step v state = .ok (some longer) middle ∧
          extendUpTo step bound longer middle = .ok w state' := by
  rw [extendUpTo, bind_eq_ok]
  constructor
  · rintro ⟨_ | longer, middle, first, rest⟩
    · obtain ⟨rfl, rfl⟩ := pure_eq_ok.1 rest
      exact .inl ⟨first, rfl⟩
    · exact .inr ⟨longer, middle, first, rest⟩
  · rintro (⟨first, rfl⟩ | ⟨longer, middle, first, rest⟩)
    · exact ⟨none, _, first, pure_eq_ok.2 ⟨rfl, rfl⟩⟩
    · exact ⟨some longer, middle, first, rest⟩

theorem extend_eq_ok : extend step v state = .ok w state' ↔
    extendUpTo step (state.rest.length + 1) v state = .ok w state' :=
  Iff.rfl

/-- A loop ends with its first value, or with one that a step has made. -/
theorem eq_or_of_extendUpTo (run : extendUpTo step bound v state = .ok w state') :
    (step v state = .ok none state' ∧ v = w) ∨
      ∃ last before behind, step last before = .ok (some w) behind := by
  induction bound generalizing v state with
  | zero => exact absurd run extendUpTo_zero
  | succ bound ih =>
    rcases extendUpTo_succ.1 run with stops | ⟨longer, middle, first, rest⟩
    · exact .inl stops
    · rcases ih rest with ⟨_, rfl⟩ | made
      · exact .inr ⟨v, state, middle, first⟩
      · exact .inr made

theorem manyUpTo_zero : ¬ manyUpTo stop item 0 state = .ok items state' :=
  unexpected_ne_ok

theorem manyUpTo_succ :
    manyUpTo stop item (bound + 1) state = .ok items state' ↔
      (stop state = .ok true state' ∧ items = []) ∨
        ∃ before first middle others, stop state = .ok false before ∧
          item before = .ok first middle ∧
            manyUpTo stop item bound middle = .ok others state' ∧ items = first :: others := by
  rw [manyUpTo, bind_eq_ok]
  constructor
  · rintro ⟨_ | _, before, stops, rest⟩
    · rw [if_neg (by simp)] at rest
      simp only [bind_eq_ok, pure_eq_ok] at rest
      obtain ⟨first, middle, one, others, _, more, rfl, rfl⟩ := rest
      exact .inr ⟨before, first, middle, others, stops, one, more, rfl⟩
    · rw [if_pos rfl] at rest
      obtain ⟨rfl, rfl⟩ := pure_eq_ok.1 rest
      exact .inl ⟨stops, rfl⟩
  · rintro (⟨stops, rfl⟩ | ⟨before, first, middle, others, stops, one, more, rfl⟩)
    · exact ⟨true, _, stops, by rw [if_pos rfl]; exact pure_eq_ok.2 ⟨rfl, rfl⟩⟩
    · refine ⟨false, before, stops, ?_⟩
      rw [if_neg (by simp)]
      simp only [bind_eq_ok, pure_eq_ok]
      exact ⟨first, middle, one, others, _, more, rfl, rfl⟩

/-- A loop ends where its test says yes. -/
theorem exists_stop_of_manyUpTo (run : manyUpTo stop item bound state = .ok items state') :
    ∃ before, stop before = .ok true state' := by
  induction bound generalizing state items with
  | zero => exact absurd run manyUpTo_zero
  | succ bound ih =>
    rcases manyUpTo_succ.1 run with ⟨asked, _⟩ | ⟨_, _, _, _, _, _, more, _⟩
    · exact ⟨state, asked⟩
    · exact ih more

theorem manyUntil_eq_ok : manyUntil stop item state = .ok items state' ↔
    manyUpTo stop item (state.rest.length + 1) state = .ok items state' :=
  Iff.rfl

/-- A run of a row ends when no comma is left. -/
theorem noComma_eq_ok {b : Bool} :
    (do return !(← eatPunct ",") : Parse Bool) state = .ok b state' ↔
      (!state.current.isPunct ",") = b ∧ (if b then state else state.next) = state' := by
  rw [eatPunct_bind]
  cases state.current.isPunct "," <;> cases b <;> simp [pure_eq_ok]

/-! ## Operands -/

theorem sequence_eq_ok {item : Parse (Expr Mark)} :
    sequence item state = .ok e state' ↔
      ∃ first middle, item state = .ok first middle ∧
        ((middle.current.isPunct "," = false ∧ first = e ∧ middle = state') ∨
          (middle.current.isPunct "," = true ∧ ∃ others behind,
            manyUpTo (do return !(← eatPunct ",")) item (middle.rest.length + 1) middle =
              .ok others behind ∧
            .sequence (behind.markFrom first.outer.start) (first :: others) = e ∧
              behind.grow e = state')) := by
  rw [sequence, bind_eq_ok]
  refine exists_congr fun first => exists_congr fun middle => and_congr_right fun _ => ?_
  rw [atPunct_bind]
  cases middle.current.isPunct "," with
  | false => simp [pure_eq_ok]
  | true => simp [bind_eq_ok, manyUntil_eq_ok, finishExpr_eq_ok]

theorem parenthesized_eq_ok :
    parenthesized p state = .ok e state' ↔
      ∃ inner middle, sequence p.assignment (state.next.inMode false) = .ok inner middle ∧
        middle.current.isPunct ")" = true ∧
          inner.withMark { inner.mark with
            outer := ⟨state.current.span.start, middle.current.span.stop⟩ } = e ∧
            (middle.inMode state.noIn).next.enclosing e = state' := by
  rw [parenthesized, bump_bind]
  simp only [bind_eq_ok, withNoIn_eq_ok, expectPunct_eq_ok, enclose_eq_ok, State.noIn_next]
  constructor
  · rintro ⟨inner, _, ⟨middle, run, rfl⟩, _, _, ⟨close, rfl, rfl⟩, rfl, rfl⟩
    exact ⟨inner, middle, run, close, rfl, rfl⟩
  · rintro ⟨inner, middle, run, close, rfl, rfl⟩
    exact ⟨inner, _, ⟨middle, run, rfl⟩, _, _, ⟨close, rfl, rfl⟩, rfl, rfl⟩

/-- The operands that are neither a single token nor a function behind the word `async`. -/
def compound (p : Productions) (token : Token) : Parse (Expr Mark) :=
  if token.isKeyword "function" then functionExpression p token.span.start
  else if token.isKeyword "class" then do
    classBody p
    finishExpr token.span.start .hidden
  else if token.isPunct "(" then parenthesized p
  else if token.isPunct "[" then arrayLiteral p
  else if token.isPunct "\x7b" then objectLiteral p
  else unexpected

/-- An operand is a function behind the word `async`, a single token, or one of the compound
operands. -/
theorem primary_eq_ok :
    primary p state = .ok e state' ↔
      (state.asyncFunctionAhead = true ∧
        functionExpression p state.current.span.start state.next = .ok e state') ∨
      (state.asyncFunctionAhead = false ∧ ∃ build, atom? state.current = some build ∧
        build (state.next.markFrom state.current.span.start) = e ∧ state.next.grow e = state') ∨
      (state.asyncFunctionAhead = false ∧ atom? state.current = none ∧
        compound p state.current state = .ok e state') := by
  simp only [primary, get_bind]
  cases state.asyncFunctionAhead with
  | true => simp [bump_bind]
  | false =>
    cases atom? state.current with
    | none => simp [compound]
    | some build => simp [bump_bind, finishExpr_eq_ok]

/-- Does the token continue an operand by a member, a call or a template? -/
def continuesChain (token : Token) : Bool :=
  token.isPunct "." || token.isPunct "?." || token.isPunct "[" || token.isPunct "(" ||
    token.kind = .template

theorem bind_ne_none {β : Type} {x : Parse β} {f : β → Parse (Option α)}
    (some : ∀ b s, ¬ f b s = .ok none state') : ¬ (x >>= f) state = .ok none state' := by
  intro run
  obtain ⟨b, middle, _, run⟩ := bind_eq_ok.1 run
  exact some b middle run

/-- A link is added exactly in front of the tokens that continue an operand. -/
theorem chainLink_eq_none {start : Nat} :
    chainLink p start e state = .ok none state' ↔
      continuesChain state.current = false ∧ state = state' := by
  have made : ∀ {a : Expr Mark} {s : State},
      ¬ (pure (some a) : Parse (Option (Expr Mark))) s = .ok none state' := nofun
  simp only [chainLink, eatPunct_bind, atPunct_bind, current_bind, ite_run, continuesChain,
    Bool.or_eq_false_iff, decide_eq_false_iff_not, reduceIte, Bool.false_eq_true]
  -- behind every test that is passed, a link is completed
  repeat' split
  case isFalse.isFalse.isFalse.isFalse.isFalse => simp_all [pure_eq_ok]
  all_goals
    refine iff_of_false ?_ (by simp_all)
    repeat refine bind_ne_none fun _ _ => ?_
    exact made

theorem chain_eq_ok :
    chain p state = .ok e state' ↔
      ∃ head middle,
        (if state.current.isKeyword "new" then construct p else primary p) state =
          .ok head middle ∧
        extendUpTo (chainLink p head.outer.start) (middle.rest.length + 1) head middle =
          .ok e state' := by
  rw [chain, atKeyword_bind]
  cases state.current.isKeyword "new" with
  | true => exact bind_eq_ok
  | false => exact bind_eq_ok

/-! ## Operators -/

theorem unary_eq_ok :
    unary p state = .ok e state' ↔
      (∃ op argument middle, state.unaryAhead? = some op ∧
        p.unary state.next = .ok argument middle ∧
          .unary (middle.markFrom state.current.span.start) op argument = e ∧
            middle.grow e = state') ∨
      (state.unaryAhead? = none ∧ isUpdate state.current = true ∧ ∃ argument middle,
        p.unary state.next = .ok argument middle ∧
          .update (middle.markFrom state.current.span.start) (state.current.text = "++") true
            argument = e ∧ middle.grow e = state') ∨
      (state.unaryAhead? = none ∧ isUpdate state.current = false ∧ ∃ operand middle,
        chain p state = .ok operand middle ∧
          if isUpdate middle.current && !middle.current.newlineBefore then
            .update (middle.next.markFrom operand.outer.start) (middle.current.text = "++") false
              operand = e ∧ middle.next.grow e = state'
          else operand = e ∧ middle = state') := by
  simp only [unary, get_bind]
  cases state.unaryAhead? with
  | some op => simp [bump_bind, bind_eq_ok, finishExpr_eq_ok]
  | none =>
    cases isUpdate state.current with
    | true => simp [bump_bind, bind_eq_ok, finishExpr_eq_ok]
    | false =>
      simp only [Bool.false_eq_true, if_false, reduceCtorEq, false_and, exists_false, false_or,
        true_and]
      rw [bind_eq_ok]
      refine exists_congr fun operand => exists_congr fun middle => and_congr_right fun _ => ?_
      rw [current_bind]
      cases isUpdate middle.current && !middle.current.newlineBefore with
      | true => simp [bump_bind, finishExpr_eq_ok]
      | false => simp [pure_eq_ok]

theorem binaryLink_eq_none :
    binaryLink p least left state = .ok none state' ↔
      state = state' ∧
        ∀ op, Infix.ofToken? state.noIn state.current = some op → op.power < least := by
  simp only [binaryLink, get_bind]
  cases Infix.ofToken? state.noIn state.current with
  | none => simp [pure_eq_ok]
  | some op =>
    by_cases weak : op.power < least
    · simp [weak, pure_eq_ok]
    · simp only [weak, if_false, bump_bind, bind_eq_ok, pure_eq_ok]
      simp [weak]

theorem binaryLink_eq_some :
    binaryLink p least left state = .ok (some e) state' ↔
      ∃ op right middle, Infix.ofToken? state.noIn state.current = some op ∧ least ≤ op.power ∧
        p.binary op.rightLeast state.next = .ok right middle ∧
          op.build left right (middle.markFrom left.outer.start) = e ∧ middle.grow e = state' := by
  simp only [binaryLink, get_bind]
  cases Infix.ofToken? state.noIn state.current with
  | none => simp [pure_eq_ok]
  | some op =>
    by_cases weak : op.power < least
    · simp [weak, pure_eq_ok, Nat.not_le.2 weak]
    · simp only [weak, if_false, bump_bind, bind_eq_ok, finishExpr_eq_ok, pure_eq_ok,
        Option.some.injEq]
      constructor
      · rintro ⟨right, middle, read, _, _, ⟨rfl, grown⟩, rfl, rfl⟩
        exact ⟨op, right, middle, rfl, Nat.not_lt.1 weak, read, rfl, grown⟩
      · rintro ⟨_, right, middle, rfl, _, read, made, grown⟩
        exact ⟨right, middle, read, e, state', ⟨made, grown⟩, rfl, rfl⟩

theorem binary_eq_ok :
    binary p least state = .ok e state' ↔
      ∃ left middle, unary p state = .ok left middle ∧
        extendUpTo (binaryLink p least) (middle.rest.length + 1) left middle = .ok e state' := by
  simp only [binary, bind_eq_ok, extend_eq_ok]

theorem conditional_eq_ok :
    conditional p state = .ok e state' ↔
      ∃ test middle, binary p 0 state = .ok test middle ∧
        ((middle.current.isPunct "?" = false ∧ test = e ∧ middle = state') ∨
          (middle.current.isPunct "?" = true ∧ ∃ yes behind no final,
            p.assignment (middle.next.inMode false) = .ok yes behind ∧
            behind.current.isPunct ":" = true ∧
            p.assignment (behind.inMode middle.noIn).next = .ok no final ∧
            .conditional (final.markFrom test.outer.start) test yes no = e ∧
              final.grow e = state')) := by
  rw [conditional, bind_eq_ok]
  refine exists_congr fun test => exists_congr fun middle => and_congr_right fun _ => ?_
  rw [atPunct_bind]
  cases middle.current.isPunct "?" with
  | false => simp [pure_eq_ok]
  | true =>
    simp only [if_true, bump_bind, bind_eq_ok, withNoIn_eq_ok, expectPunct_eq_ok,
      finishExpr_eq_ok, State.noIn_next, reduceCtorEq, false_and, false_or, true_and]
    constructor
    · rintro ⟨yes, _, ⟨behind, first, rfl⟩, _, _, ⟨colon, rfl, rfl⟩, no, final, second, last⟩
      exact ⟨yes, behind, no, final, first, colon, second, last⟩
    · rintro ⟨yes, behind, no, final, first, colon, second, last⟩
      exact ⟨yes, _, ⟨behind, first, rfl⟩, _, _, ⟨colon, rfl, rfl⟩, no, final, second, last⟩

theorem assignment_eq_ok :
    assignment p state = .ok e state' ↔
      (state.arrowAhead = true ∧ arrowFunction p state = .ok e state') ∨
      (state.arrowAhead = false ∧ state.current.isKeyword "yield" = true ∧
        yieldExpression p state = .ok e state') ∨
      (state.arrowAhead = false ∧ state.current.isKeyword "yield" = false ∧ ∃ target middle,
        conditional p state = .ok target middle ∧
          if middle.current.kind = .punctuator &&
              assignmentOperators.contains middle.current.text then
            ∃ value final, p.assignment middle.next = .ok value final ∧
              .assignment (final.markFrom target.outer.start) middle.current.text target value =
                e ∧ final.grow e = state'
          else target = e ∧ middle = state') := by
  rw [assignment, get_bind]
  cases state.arrowAhead with
  | true => simp
  | false =>
    simp only [Bool.false_eq_true, if_false, false_and, false_or, true_and, atKeyword_bind]
    cases state.current.isKeyword "yield" with
    | true => simp
    | false =>
      simp only [Bool.false_eq_true, if_false, false_and, false_or, true_and]
      rw [bind_eq_ok]
      refine exists_congr fun target => exists_congr fun middle => and_congr_right fun _ => ?_
      rw [current_bind]
      split
      · simp only [bump_bind, bind_eq_ok, finishExpr_eq_ok]
      · exact pure_eq_ok

end TidyScript.Grammar
