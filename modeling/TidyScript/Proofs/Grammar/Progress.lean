import TidyScript.Proofs.Grammar.Bound
import TidyScript.Proofs.Grammar.ExpressionMeeting

/-!
# Reading comes to an end

On every row with an end mark, reading goes forward until it succeeds or fails. No bound on the
depth of the productions or on the rounds of a loop is reached, so the bounds take no part in the
outcome. Every production that succeeds takes a token, does not go past the end mark, gives the
mode back and keeps the nodes in the tables.
-/

namespace TidyScript.Grammar

-- productions are long rows of steps
set_option synthInstance.maxSize 1000000000

variable {α : Type}

/-! ## All loops -/

/-- An item of a list up to a closing punctuator, with the comma behind it. -/
def listed (close : String) (item : Parse α) : Parse α := do
  let value ← item
  if !(← atPunct close) then
    let _ ← expectPunct ","
  return value

/-- A statement that is due before a closing brace. -/
def due (statement : Parse (Stmt Mark)) : Parse (Stmt Mark) := do
  if ← atEnd then expected "'\x7d'"
  statement

/-- The loops of the grammar that repeat an item: the answer that stops them, and the item. -/
inductive Repeats (p : Productions) : {α : Type} → Parse Bool → Parse α → Prop where
  /-- The statements of a whole row. -/
  | program : Repeats p atEnd p.statement
  /-- The statements between two braces. -/
  | statements : Repeats p (atPunct "\x7d") (due p.statement)
  /-- The statements of a case. -/
  | consequent : Repeats p atCaseEnd (due p.statement)
  /-- The cases of a `switch`. -/
  | cases : Repeats p (eatPunct "\x7d") (switchCase p)
  /-- The members of a class. -/
  | members : Repeats p (eatPunct "\x7d") (classMember p)
  /-- The parameters of a function. -/
  | params : Repeats p (atPunct ")") (listed ")" do
      if ← atPunct "..." then
        let start := (← bump).span.start
        let target ← bindingTarget p.primary
        finishExpr start (.spread · target)
      else p.assignment)
  /-- The arguments of a call. -/
  | arguments : Repeats p (atPunct ")") (listed ")" (listItem p))
  /-- The elements of an array. -/
  | elements : Repeats p (atPunct "]") (do
      if ← eatPunct "," then return Element.hole
      let value ← listItem p
      if !(← atPunct "]") then
        let _ ← expectPunct ","
      return Element.item value)
  /-- The members of an object. -/
  | properties : Repeats p (atPunct "\x7d") (listed "\x7d" do
      if ← atPunct "..." then
        let start := (← bump).span.start
        let value ← p.assignment
        return ObjectMember.spread (← finishExpr start (.spread · value))
      else objectProperty p)
  /-- The expressions of a sequence inside brackets. -/
  | items : Repeats p (do return !(← eatPunct ",")) p.assignment
  /-- The expressions of any other sequence. -/
  | expressions : Repeats p (do return !(← eatPunct ",")) (assignment p)
  /-- The patterns of a declaration. -/
  | declarators : Repeats p (do return !(← eatPunct ",")) (declarator p)

/-- The loops of the grammar that extend what they have read. -/
inductive Extends (p : Productions) : {α : Type} → (α → Parse (Option α)) → Prop where
  /-- Modifiers in front of a name. -/
  | modifiers : Extends p skipModifier
  /-- Members of the operand of `new`. -/
  | callee (start : Nat) : Extends p (constructLink p start)
  /-- Members and calls behind an operand. -/
  | links (start : Nat) : Extends p (chainLink p start)
  /-- Operators with their right operands. -/
  | operators (least : Nat) : Extends p (binaryLink p least)

instance : ∀ u, TakesFinding (skipModifier u) := fun _ =>
  ⟨fun {s _ _} ends run => by
    replace run := get_bind.symm.trans run
    split at run
    · next ahead =>
      replace run := bump_bind.symm.trans run
      obtain ⟨_, rfl⟩ := pure_eq_ok.1 run
      exact (State.length_next (ends.live (kind_ne_eof_of_modifierAhead ahead))).le
    · cases (pure_eq_ok.1 run).1⟩

section Loops

variable {p : Productions} [p.Stepping] [p.Taking] {s : State} {bound : Nat}

instance {close : String} {item : Parse α} [Steps item] : Steps (listed close item) := by
  unfold listed
  infer_instance

instance {close : String} {item : Parse α} [Steps item] [Takes 1 item] :
    Takes 1 (listed close item) := by
  unfold listed
  infer_instance

instance {statement : Parse (Stmt Mark)} [Steps statement] : Steps (due statement) := by
  unfold due
  infer_instance

instance {statement : Parse (Stmt Mark)} [Takes 1 statement] : Takes 1 (due statement) := by
  unfold due
  infer_instance

/-- **No loop that repeats an item reaches its bound.** -/
theorem Repeats.manyOver_eq {stop : Parse Bool} {item : Parse α} (loop : Repeats p stop item)
    (out : Parse (List α)) (ends : s.Ends) (long : s.rest.length < bound) :
    manyOver out stop item bound s = manyUntil stop item s := by
  cases loop with
  | program => exact manyOver_eq_manyUntil out ends long
  | statements => exact manyOver_eq_manyUntil out ends long
  | consequent => exact manyOver_eq_manyUntil out ends long
  | cases => exact manyOver_eq_manyUntil out ends long
  | members => exact manyOver_eq_manyUntil out ends long
  | params => exact manyOver_eq_manyUntil out ends long
  | arguments => exact manyOver_eq_manyUntil out ends long
  | elements => exact manyOver_eq_manyUntil out ends long
  | properties => exact manyOver_eq_manyUntil out ends long
  | items => exact manyOver_eq_manyUntil out ends long
  | expressions => exact manyOver_eq_manyUntil out ends long
  | declarators => exact manyOver_eq_manyUntil out ends long

/-- **No loop that extends what it has read reaches its bound.** -/
theorem Extends.extendOver_eq {step : α → Parse (Option α)} (loop : Extends p step) (out : Parse α)
    (value : α) (ends : s.Ends) (long : s.rest.length < bound) :
    extendOver out step bound value s = extend step value s := by
  cases loop with
  | modifiers => exact extendOver_eq_extend out ends long
  | callee => exact extendOver_eq_extend out ends long
  | links => exact extendOver_eq_extend out ends long
  | operators => exact extendOver_eq_extend out ends long

end Loops

/-! ## All productions -/

/-- The two sets of productions do the same at the state, whether they succeed or fail. -/
structure Productions.AgreeAt (p q : Productions) (s : State) : Prop where
  statement : p.statement s = q.statement s
  assignment : p.assignment s = q.assignment s
  binary : ∀ least, p.binary least s = q.binary least s
  unary : p.unary s = q.unary s
  chain : p.chain s = q.chain s
  construct : p.construct s = q.construct s
  primary : p.primary s = q.primary s

/-- From the first state to the second, tokens have been taken, the end mark is still ahead, the
mode is the same, and the nodes in the tables are kept. -/
structure State.Progresses (s s' : State) : Prop where
  taken : ∃ read, read ≠ [] ∧ s.rest = read ++ s'.rest
  stop : s'.stop = s.stop
  mode : s'.noIn = s.noIn
  keeps : s.Keeps s'

section Productions

variable {s s' : State}

theorem within_self (ends : s.Ends) : s.Within s.rest.length true :=
  ⟨ends, Nat.le_refl _⟩

theorem Productions.agreeAt_over (ends : s.Ends) (base : Productions) {depth : Nat}
    (deep : s.rest.length < depth) : (upTo (s.rest.length + 1)).AgreeAt (base.over depth) s := by
  have agreeing := agreeing_over base deep
  have within := within_self ends
  exact ⟨agreeing.statement.agrees within, agreeing.assignment.agrees within,
    fun least => (agreeing.binary least).agrees within, agreeing.unary.agrees within,
    agreeing.chain.agrees within, agreeing.construct.agrees within,
    agreeing.primary.agrees within⟩

/-- Statements up to the end are read alike over any productions and with any end of the loop. -/
theorem manyOver_eq_readProgram (ends : s.Ends) (base : Productions)
    (out : Parse (List (Stmt Mark))) {depth bound : Nat} (deep : s.rest.length < depth)
    (long : s.rest.length < bound) :
    manyOver out atEnd (base.over depth).statement bound s = readProgram s := by
  let p := Productions.upTo (s.rest.length + 1)
  have agreeing : Productions.Agreeing s.rest.length p (base.over depth) :=
    Productions.agreeing_over base deep
  calc manyOver out atEnd (base.over depth).statement bound s
      = manyOver out atEnd p.statement bound s :=
        (manyOver_congr out (within_self ends)).symm
    _ = readProgram s := Repeats.program.manyOver_eq out ends long

/-- An expression is read alike over any productions. -/
theorem sequence_eq_readExpression (ends : s.Ends) (base : Productions) {depth : Nat}
    (deep : s.rest.length < depth) :
    sequence (base.over depth).assignment s = readExpression s := by
  let p := Productions.upTo (s.rest.length + 1)
  have agreeing : Productions.Agreeing s.rest.length p (base.over depth) :=
    Productions.agreeing_over base deep
  have above : Productions.Agreeing s.rest.length p p.above := by
    have deeper : s.rest.length < s.rest.length + 2 := Nat.lt_add_of_pos_right Nat.two_pos
    have agrees := Productions.agreeing_over Productions.none deeper
    rwa [Productions.none_over] at agrees
  have agrees (q : Productions) [Productions.Agreeing s.rest.length p q] :
      sequence p.assignment s = sequence q.assignment s :=
    Agrees.agrees (within_self ends)
  exact (agrees (base.over depth)).symm.trans (agrees p.above)

theorem progresses_of_run {x : Parse α} [steps : Steps x] [takes : Takes 1 x] (ends : s.Ends)
    {a : α} (run : x s = .ok a s') : s.Progresses s' := by
  have steps := steps.along run
  have less := takes.takes ends run
  refine ⟨?_, steps.stop, steps.mode, steps.keeps⟩
  obtain ⟨read, split⟩ := steps.suffix
  refine ⟨read, fun none => ?_, split.symm⟩
  rw [none, List.nil_append] at split
  rw [split] at less
  exact absurd less (Nat.not_succ_le_self _)

/-- **Reading comes to an end, and goes forward until it does.** Before a row with an end mark, no
bound on the depth or on the rounds of a loop takes part in the outcome: any productions may stand
below those that are deeper than the row is long, and any parse at the end of a loop that may go
round more often. What a statement, an expression or the body of a class has read is at least one
token, and none behind the end mark; the mode is as before, and all nodes in the tables keep their
kinds and spans. -/
theorem reading_ends_and_progresses (s : State) (ends : s.Ends) :
    (∀ (base : Productions) depth, s.rest.length < depth →
      (Productions.upTo (s.rest.length + 1)).AgreeAt (base.over depth) s) ∧
    (∀ depth {α : Type} {stop : Parse Bool} {item : Parse α},
      Repeats (Productions.upTo depth) stop item → ∀ out bound, s.rest.length < bound →
        manyUntil stop item s = manyOver out stop item bound s) ∧
    (∀ depth {α : Type} {step : α → Parse (Option α)},
      Extends (Productions.upTo depth) step → ∀ value out bound, s.rest.length < bound →
        extend step value s = extendOver out step bound value s) ∧
    (∀ (base : Productions) out depth bound, s.rest.length < depth → s.rest.length < bound →
      readProgram s = manyOver out atEnd (base.over depth).statement bound s) ∧
    (∀ (base : Productions) depth, s.rest.length < depth →
      readSingleExpression s = (do
        let value ← sequence (base.over depth).assignment
        let _ ← eatPunct ";"
        expectEnd
        let statement ← finishStmt value.outer.start (.expression · value)
        return (value, statement) : Parse (Expr Mark × Stmt Mark)) s) ∧
    ∀ depth s',
      (∀ x, (Productions.upTo depth).statement s = .ok x s' → s.Progresses s') ∧
      (∀ e, (Productions.upTo depth).assignment s = .ok e s' → s.Progresses s') ∧
      (∀ e, (Productions.upTo depth).unary s = .ok e s' → s.Progresses s') ∧
      (∀ e, (Productions.upTo depth).primary s = .ok e s' → s.Progresses s') ∧
      ∀ u, classBody (Productions.upTo depth) s = .ok u s' → s.Progresses s' := by
  refine ⟨fun base depth deep => Productions.agreeAt_over ends base deep,
    fun depth {_ _ _} loop out bound long => (loop.manyOver_eq out ends long).symm,
    fun depth {_ _} loop value out bound long => (loop.extendOver_eq out value ends long).symm,
    fun base out depth bound deep long => (manyOver_eq_readProgram ends base out deep long).symm,
    fun base depth deep => ?_, fun depth s' => ?_⟩
  · exact bind_congr (sequence_eq_readExpression ends base deep).symm fun _ => rfl
  · exact ⟨fun _ => progresses_of_run ends, fun _ => progresses_of_run ends,
      fun _ => progresses_of_run ends, fun _ => progresses_of_run ends,
      fun _ => progresses_of_run ends⟩

/-- Before the tokens of `a;`, over productions that only fail. -/
theorem reading_ends_and_progresses_before_name :
    ∃ s : State, s.rest.map (·.text) = ["a", ";"] ∧ s.Ends ∧
      readProgram s =
        manyOver (expected "an end") atEnd (Productions.none.over 3).statement 3 s ∧
      ∃ x s', (Productions.upTo 3).statement s = .ok x s' ∧ s'.rest = [] ∧ s.Progresses s' := by
  let s := State.ofRow ⟨[⟨.identifier, "a", ⟨0, 1⟩, false⟩, ⟨.punctuator, ";", ⟨1, 2⟩, false⟩],
    ⟨.eof, "", ⟨2, 2⟩, false⟩, []⟩
  have ended := reading_ends_and_progresses s rfl
  refine ⟨s, rfl, rfl, ended.2.2.2.1 _ _ 3 3 (by decide) (by decide), _, _, rfl, rfl, ?_⟩
  exact (ended.2.2.2.2.2 3 _).1 _ rfl

end Productions

end TidyScript.Grammar
