import TidyScript.Grammar.Basic

/-!
# Runs of a parse

What the small operations of a parse answer and leave behind, and how a run of a parse is
put together from the runs of its parts. Each statement here is about a run that succeeds,
and says all there is to say about it: read from left to right it takes a run apart, and
read from right to left it puts one together.
-/

namespace TidyScript.Grammar

variable {α β : Type}

namespace State

/-- The state behind the next token. -/
def next (state : State) : State :=
  match state.rest with
  | [] => state
  | token :: rest => { state with rest := rest, lastEnd := token.span.stop }

/-- The state with one more expression completed. -/
def grow (state : State) (node : Expr Mark) : State :=
  { state with exprs := state.exprs.push node }

/-- The mark of an expression from `start` to the token read last. -/
def markFrom (state : State) (start : Nat) : Mark :=
  ⟨state.exprs.size, ⟨start, state.lastEnd⟩, ⟨start, state.lastEnd⟩⟩

/-- The state with one more statement completed. -/
def growStmt (state : State) (node : Stmt Mark) : State :=
  { state with stmts := state.stmts.push node }

/-- The mark of a statement from `start` to the token read last. -/
def stmtMarkFrom (state : State) (start : Nat) : Mark :=
  ⟨state.stmts.size, ⟨start, state.lastEnd⟩, ⟨start, state.lastEnd⟩⟩

/-- The state in the given mode. -/
def inMode (state : State) (noIn : Bool) : State :=
  { state with noIn := noIn }

/-- The state with parentheses recorded around an expression. -/
def enclosing (state : State) (node : Expr Mark) : State :=
  { state with exprs := state.exprs.setIfInBounds node.index node }

theorem noIn_next (state : State) : state.next.noIn = state.noIn := by
  obtain ⟨rest, _⟩ := state
  cases rest <;> rfl

theorem exprs_next (state : State) : state.next.exprs = state.exprs := by
  obtain ⟨rest, _⟩ := state
  cases rest <;> rfl

theorem next_inMode (state : State) (noIn : Bool) :
    (state.inMode noIn).next = state.next.inMode noIn := by
  obtain ⟨rest, _⟩ := state
  cases rest <;> rfl

/-- From the first state on, tokens have been taken, and nothing else has been done. -/
inductive Advances (state : State) : State → Prop where
  | refl : state.Advances state
  | next {middle : State} (advances : state.Advances middle) : state.Advances middle.next

theorem Advances.trans {state middle final : State} (first : state.Advances middle)
    (second : middle.Advances final) : state.Advances final := by
  induction second with
  | refl => exact first
  | next _ ih => exact ih.next

end State

variable {state state' : State} {text : String} {b : Bool} {token : Token} {a : α}

theorem bind_eq_ok {x : Parse α} {f : α → Parse β} {b : β} :
    (x >>= f) state = .ok b state' ↔
      ∃ a middle, x state = .ok a middle ∧ f a middle = .ok b state' := by
  show EStateM.bind x f state = _ ↔ _
  unfold EStateM.bind
  constructor
  · intro run
    split at run
    · next a middle first => exact ⟨a, middle, first, run⟩
    · cases run
  · rintro ⟨a, middle, first, second⟩
    rw [first]
    exact second

theorem pure_eq_ok {a b : α} :
    (pure a : Parse α) state = .ok b state' ↔ a = b ∧ state = state' := by
  show EStateM.Result.ok a state = _ ↔ _
  simp

theorem get_eq_ok {s : State} :
    (get : Parse State) state = .ok s state' ↔ state = s ∧ state = state' := by
  show EStateM.Result.ok state state = _ ↔ _
  simp

theorem modify_eq_ok {f : State → State} {u : Unit} :
    (modify f : Parse Unit) state = .ok u state' ↔ f state = state' := by
  show EStateM.Result.ok () (f state) = _ ↔ _
  simp

/-! ### Looking ahead and going on

A look leaves the state as it is, so a run that begins with one goes on from the same state with
what is seen there. -/

theorem ite_run {c : Prop} [Decidable c] {x y : Parse α} :
    (if c then x else y) state = if c then x state else y state := by
  split <;> rfl

theorem get_bind {f : State → Parse α} : (get >>= f) state = f state state := rfl

theorem current_bind {f : Token → Parse α} : (current >>= f) state = f state.current state := rfl

theorem atPunct_bind {f : Bool → Parse α} :
    (atPunct text >>= f) state = f (state.current.isPunct text) state := rfl

theorem atKeyword_bind {f : Bool → Parse α} :
    (atKeyword text >>= f) state = f (state.current.isKeyword text) state := rfl

theorem current_eq_ok :
    current state = .ok token state' ↔ state.current = token ∧ state = state' := by
  show EStateM.Result.ok state.current state = _ ↔ _
  simp

theorem atPunct_eq_ok :
    atPunct text state = .ok b state' ↔ state.current.isPunct text = b ∧ state = state' := by
  show EStateM.Result.ok (state.current.isPunct text) state = _ ↔ _
  simp

theorem atKeyword_eq_ok :
    atKeyword text state = .ok b state' ↔ state.current.isKeyword text = b ∧ state = state' := by
  show EStateM.Result.ok (state.current.isKeyword text) state = _ ↔ _
  simp

theorem atEnd_eq_ok :
    atEnd state = .ok b state' ↔ decide (state.current.kind = .eof) = b ∧ state = state' := by
  show EStateM.Result.ok (decide (state.current.kind = .eof)) state = _ ↔ _
  simp

theorem bump_run : bump state = .ok state.current state.next := by
  obtain ⟨rest, _⟩ := state
  cases rest <;> rfl

theorem bump_bind {f : Token → Parse α} : (bump >>= f) state = f state.current state.next := by
  obtain ⟨rest, _⟩ := state
  cases rest <;> rfl

theorem bump_eq_ok :
    bump state = .ok token state' ↔ state.current = token ∧ state.next = state' := by
  rw [bump_run]
  simp

theorem expected_ne_ok {what : String} : ¬ expected what state = .ok a state' := by
  intro run
  cases run

theorem unexpected_ne_ok : ¬ unexpected state = .ok a state' := by
  intro run
  cases run

theorem eatPunct_bind {f : Bool → Parse α} :
    (eatPunct text >>= f) state =
      if state.current.isPunct text then f true state.next else f false state := by
  simp only [eatPunct, bind_assoc, atPunct_bind]
  split <;> simp [bump_bind]

theorem eatPunct_eq_ok :
    eatPunct text state = .ok b state' ↔
      state.current.isPunct text = b ∧ (if b then state.next else state) = state' := by
  rw [eatPunct, atPunct_bind]
  cases state.current.isPunct text with
  | true => cases b <;> simp [bump_bind, pure_eq_ok]
  | false => cases b <;> simp [pure_eq_ok]

theorem expectPunct_eq_ok :
    expectPunct text state = .ok token state' ↔
      state.current.isPunct text = true ∧ state.current = token ∧ state.next = state' := by
  rw [expectPunct, atPunct_bind]
  cases state.current.isPunct text with
  | true => simp [bump_eq_ok]
  | false => simp [expected_ne_ok]

theorem expectKeyword_eq_ok :
    expectKeyword text state = .ok token state' ↔
      state.current.isKeyword text = true ∧ state.current = token ∧ state.next = state' := by
  rw [expectKeyword, atKeyword_bind]
  cases state.current.isKeyword text with
  | true => simp [bump_eq_ok]
  | false => simp [expected_ne_ok]

theorem finishExpr_eq_ok {start : Nat} {build : Mark → Expr Mark} {e : Expr Mark} :
    finishExpr start build state = .ok e state' ↔
      build (state.markFrom start) = e ∧ state.grow e = state' := by
  show EStateM.Result.ok (build (state.markFrom start))
    (state.grow (build (state.markFrom start))) = _ ↔ _
  rw [EStateM.Result.ok.injEq]
  exact and_congr_right fun is => by rw [is]

theorem finishStmt_eq_ok {start : Nat} {build : Mark → Stmt Mark} {s : Stmt Mark} :
    finishStmt start build state = .ok s state' ↔
      build (state.stmtMarkFrom start) = s ∧
        state.growStmt (build (state.stmtMarkFrom start)) = state' := by
  show EStateM.Result.ok (build (state.stmtMarkFrom start))
    (state.growStmt (build (state.stmtMarkFrom start))) = _ ↔ _
  simp

/-- Can a statement end in front of the token without a semicolon? -/
def endsStatement (token : Token) : Bool :=
  token.isPunct "\x7d" || token.kind = .eof || token.newlineBefore

theorem endStatement_eq_ok {u : Unit} :
    endStatement state = .ok u state' ↔
      (state.current.isPunct ";" = true ∧ state.next = state') ∨
        (state.current.isPunct ";" = false ∧ endsStatement state.current = true ∧
          state = state') := by
  rw [endStatement, eatPunct_bind]
  cases state.current.isPunct ";" with
  | true => simp [pure_eq_ok]
  | false =>
    simp only [Bool.false_eq_true, if_false, current_bind, ite_run, endsStatement, false_and,
      false_or, true_and]
    split
    · next ends => simp [ends, pure_eq_ok]
    · next goesOn => simp [goesOn, expected_ne_ok]

theorem enclose_eq_ok {node e : Expr Mark} {outer : Span} :
    enclose node outer state = .ok e state' ↔
      node.withMark { node.mark with outer := outer } = e ∧
        state.enclosing (node.withMark { node.mark with outer := outer }) = state' := by
  show EStateM.Result.ok (node.withMark { node.mark with outer := outer })
    (state.enclosing (node.withMark { node.mark with outer := outer })) = _ ↔ _
  simp

theorem withNoIn_eq_ok {noIn : Bool} {parse : Parse α} :
    withNoIn noIn parse state = .ok a state' ↔
      ∃ middle, parse (state.inMode noIn) = .ok a middle ∧ middle.inMode state.noIn = state' := by
  simp only [withNoIn, get_bind, bind_eq_ok, modify_eq_ok, pure_eq_ok]
  constructor
  · rintro ⟨_, _, rfl, a, middle, run, _, _, rfl, rfl, rfl⟩
    exact ⟨middle, run, rfl⟩
  · rintro ⟨middle, run, rfl⟩
    exact ⟨(), _, rfl, a, middle, run, (), _, rfl, rfl, rfl⟩

end TidyScript.Grammar
