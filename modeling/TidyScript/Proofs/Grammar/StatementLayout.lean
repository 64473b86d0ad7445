import TidyScript.Proofs.Grammar.ExpressionLayout
import TidyScript.Proofs.Grammar.Yields

/-!
# Statements lay out their nodes

Every production of statements reads nodes that are placed on the row of tokens, and with this all
productions do: those that call each other do so one level deeper, and those that read nothing
read no node that is not placed.
-/

namespace TidyScript.Grammar

-- productions are long rows of steps
set_option synthInstance.maxSize 1000000000

variable {row : TokenRow} {s s' : State} {low : Nat} {held : List (Node Mark)} {p : Productions}

/-! ## Blocks -/

/-- The statements of the result are blocks. -/
def Braced {α : Type} [Bears α] (a : α) : Prop :=
  ∀ child, .stmt child ∈ nodesOf a → child.isBlock = true

theorem isBlock_of_block {x : Stmt Mark} (run : block p s = .ok x s') : x.isBlock = true := by
  obtain ⟨_, _, _, run⟩ := bind_eq_ok.1 run
  obtain ⟨_, _, _, run⟩ := bind_eq_ok.1 run
  obtain ⟨rfl, _⟩ := finishStmt_eq_ok.1 run
  rfl

instance {α : Type} [Bears α] : Yields Braced (pure none : Parse (Option α)) :=
  ⟨fun run _ => by cases run; nofun⟩

/-- A block is the only statement of the result. -/
theorem braced_of_block {α : Type} [Bears α] {f : Stmt Mark → α}
    (only : ∀ x child, .stmt child ∈ nodesOf (f x) → child = x) :
    Yields Braced (block p >>= fun x => pure (f x)) where
  yields run child mem := by
    obtain ⟨x, _, body, run⟩ := bind_eq_ok.1 run
    obtain ⟨rfl, _⟩ := pure_eq_ok.1 run
    exact only x child mem ▸ isBlock_of_block body

instance : Yields Braced (handler? p) := by
  have catches (param : Option (Expr Mark)) :
      Yields Braced (block p >>= fun body => pure (some (Handler.mk param body))) :=
    braced_of_block fun x child mem => by
      cases param <;> simpa [nodesOf, Bears.list, Handler.param, Handler.body] using mem
  unfold handler?
  infer_instance

instance : Yields Braced (finalizer? p) := by
  have := braced_of_block (p := p) (f := some) fun x child mem => by
    simpa [nodesOf, Bears.list] using mem
  unfold finalizer?
  infer_instance

section Productions

variable [p.Stepping] [p.Taking] [sound : p.Sound row]

instance : Reads row (parenthesizedTest p) := inferInstance

/-! ## Loops -/

/-- The first part of a `for` with semicolons becomes a statement in its place. -/
instance {head : Option (ForHead Mark)} : Replaces row head (forInit head) where
  replaces {s held low _ _} began run := by
    match head with
    | none | some (.declaration value) =>
      obtain ⟨rfl, rfl⟩ := pure_eq_ok.1 run
      exact ⟨began.stands, .refl _, began.laid⟩
    | some (.pattern target) =>
      cases run
      have placed := began.laid.placed (.expr target) (List.mem_singleton_self _)
      have inside := began.laid.spread.inside (.expr target) (List.mem_singleton_self _)
      -- The statement stands exactly where the expression stands with its parentheses.
      let x : Stmt Mark := .expression ⟨s.stmts.size, target.outer, target.outer⟩ target
      have within := s.within_growStmt x
      have done : (Node.stmt x).Placed row.tokens (s.growStmt x).census := by
        refine .over rfl placed.seated.outer ?_
          (.single (placed.mono within) (Nat.le_refl _) (Nat.le_refl _))
          (fun _ => rfl) trivial
        simp [x, Node.id, NodeId.Counted, Stmt.index, Stmt.mark, State.census, State.growStmt]
      exact ⟨began.stands.growStmt done rfl, ⟨List.suffix_refl _, within⟩,
        .single done inside.1 inside.2⟩

instance {head : Option (ForHead Mark)} {token : Token} :
    Goes row true low ([] ++ nodesOf head) nodesOf (forRest p low head token) := by
  unfold forRest
  split <;> infer_instance

instance : Starts row (forLoop p) := inferInstance

/-! ## Compound statements -/

instance : Starts row (attempt p) where
  starts {s held _ _} stands run passed := by
    replace run := bump_bind.symm.trans run
    obtain ⟨body, s₁, bodyRun, run⟩ := bind_eq_ok.1 run
    obtain ⟨handler, s₂, handlerRun, run⟩ := bind_eq_ok.1 run
    obtain ⟨finalizer, s₃, finalizerRun, run⟩ := bind_eq_ok.1 run
    split at run
    · exact absurd run expected_ne_ok
    have began : Began row held true s.here [] s := stands.began
    have first : Lays row _ true _ [] s s.next := Reads.reads began.stands bump_run
    have began : Began row held true s.here [] s.next := began.read first
    have second : Lays row _ true _ (nodesOf body) s.next s₁ := Reads.reads began.stands bodyRun
    have began := began.read second
    have third : Lays row _ true _ (nodesOf handler) s₁ s₂ := Reads.reads began.stands handlerRun
    have began := began.read third
    have last : Lays row _ true _ (nodesOf finalizer) s₂ s₃ :=
      Reads.reads began.stands finalizerRun
    have began := began.read last
    have leads := first.leads.trans (second.leads.trans (third.leads.trans last.leads))
    obtain ⟨_, rfl⟩ := finishStmt_eq_ok.1 run
    refine (began.finishStmt passed (.refl _) (fun _ => ?_) run).behind leads
    intro child mem
    rw [Stmt.children, ← nodesOf_handler?, ← nodesOf_stmt?] at mem
    rcases List.mem_append.1 mem with mem | inFinalizer
    · rcases List.mem_cons.1 mem with inBody | inHandler
      · cases inBody
        exact isBlock_of_block bodyRun
      · exact (Yields.yields handlerRun : Braced handler) child inHandler
    · exact (Yields.yields finalizerRun : Braced finalizer) child inFinalizer

instance : Starts row (switch p) := inferInstance

/-! ## Any statement -/

instance : Starts row (statement p) where
  starts {s held node s'} stands run passed := by
    replace run := get_bind.symm.trans run
    have starts (x : Parse (Stmt Mark)) [starts : Starts row x] (run : x s = .ok node s') :
        Lays row held true s.here (nodesOf node) s s' := starts.starts stands run passed
    have goes (x : Parse (Stmt Mark)) [goes : Goes row true s.current.span.start [] nodesOf x]
        (run : x s = .ok node s') : Lays row held true s.here (nodesOf node) s s' :=
      goes.goes stands.began run fun _ => passed
    cases found : statementAhead? p s with
    | some production =>
      simp only [found] at run
      revert run
      refine of_statementAhead? (motive := fun x => x s = .ok node s' → _) found (starts _)
        (fun _ => goes _) (fun _ => goes _) (fun _ _ => starts _) fun _ => ?_
      and_intros <;> first | exact starts _ | exact goes _
    | none =>
      simp only [found] at run
      exact starts (expressionStatement p) run

end Productions

/-! ## All productions -/

/-- **The productions of every depth read nodes that are placed on the row.** -/
instance Productions.sound_upTo (row : TokenRow) (depth : Nat) :
    (Productions.upTo depth).Sound row := by
  induction depth with
  | zero =>
    have nothing {α : Type} [Bears α] : Reads row (unexpected : Parse α) :=
      ⟨fun _ run => absurd run unexpected_ne_ok⟩
    exact ⟨nothing, ⟨fun run => absurd run unexpected_ne_ok⟩, nothing, fun _ => nothing,
      nothing, nothing, nothing, nothing⟩
  | succ depth sound =>
    refine ⟨?_, statement_spans _, ?_, ?_, ?_, ?_, ?_, ?_⟩ <;> dsimp only [Productions.upTo] <;>
      infer_instance

/-- Reading a whole row lays its statements one behind the other. -/
theorem readProgram_reads (row : TokenRow) {body : List (Stmt Mark)} (stands : s.Stands row held)
    (run : readProgram s = .ok body s') :
    Lays row held true s.here (body.map .stmt) s s' := by
  rw [← nodesOf_stmts]
  have reads (p : Productions) [p.Sound row] : Reads row (manyUntil atEnd p.statement) :=
    inferInstance
  exact (reads _).reads stands run

/-- Reading a single expression lays it out as a statement. -/
theorem readSingleExpression_reads (row : TokenRow) {read : Expr Mark × Stmt Mark}
    (stands : s.Stands row held) (run : readSingleExpression s = .ok read s') :
    Lays row held true s.here [.stmt read.2] s s' := by
  obtain ⟨e, s₁, first, run⟩ := bind_eq_ok.1 run
  obtain ⟨_, s₂, ended, run⟩ := bind_eq_ok.1 run
  obtain ⟨_, s₃, done, run⟩ := bind_eq_ok.1 run
  obtain ⟨x, _, finish, run⟩ := bind_eq_ok.1 run
  obtain ⟨rfl, rfl⟩ := pure_eq_ok.1 run
  have value (p : Productions) [p.Stepping] [p.Taking] [p.Sound row] :
      Reads row (expression p) := inferInstance
  have began : Began row held true s.here [] s := stands.began
  have lays := (value _).reads began.stands first
  have began : Began row held true s.here [.expr e] s₁ := began.read lays
  have more : Lays row _ true _ [] s₁ s₂ := Reads.reads began.stands ended
  have began : Began row held true s.here [.expr e] s₂ := began.read more
  have last : Lays row _ true _ [] s₂ s₃ := Reads.reads began.stands done
  have began : Began row held true s.here [.expr e] s₃ := began.read last
  have made := began.narrow.finishStmt began.narrow.passed (.refl _) (by simp) finish
  exact (made.widen (began.laid.spread.inside (.expr e) (by simp)).1).behind
    (lays.leads.trans (more.leads.trans last.leads))

theorem exists_expression_of_readSingleExpression {e : Expr Mark} {x : Stmt Mark}
    (run : readSingleExpression s = .ok (e, x) s') : ∃ mark, x = .expression mark e := by
  obtain ⟨_, _, _, run⟩ := bind_eq_ok.1 run
  obtain ⟨_, _, _, run⟩ := bind_eq_ok.1 run
  obtain ⟨_, _, _, run⟩ := bind_eq_ok.1 run
  obtain ⟨_, _, finish, run⟩ := bind_eq_ok.1 run
  obtain ⟨rfl, _⟩ := finishStmt_eq_ok.1 finish
  obtain ⟨same, _⟩ := pure_eq_ok.1 run
  cases same
  exact ⟨_, rfl⟩

/-- The state before a row of tokens stands in it. -/
theorem State.stands_ofRow {row : TokenRow} (lined : row.Lined) : (ofRow row).Stands row [] :=
  ⟨lined, rfl, .inl ⟨rfl, rfl⟩, by simp [ofRow], by simp [ofRow], accounts_ofRow row⟩

end TidyScript.Grammar
