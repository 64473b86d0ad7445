import TidyScript.Proofs.Grammar.Layout

/-!
# Where statements start and end

Every production of statements notes the token it finds first, and completing its statement is the
last thing it does. A statement therefore runs from the token in front of which it is read to the
token read last, a semicolon on the next line included.

Statements that are read one behind the other leave no token out: what has been read behind the
first of them and is not part of it belongs to the others.
-/

namespace TidyScript.Grammar

-- productions are long rows of steps
set_option synthInstance.maxSize 1000000000

variable {α β : Type} {row : TokenRow} {s s' : State} {start : Nat} {p : Productions}
  {held : List (Node Mark)}

/-- A statement that has been read runs from `start` to the token read last. -/
class Closes (start : Nat) (x : Parse (Stmt Mark)) : Prop where
  closes : ∀ {s : State} {node : Stmt Mark} {s' : State},
    x s = .ok node s' → node.span = ⟨start, s'.lastEnd⟩

/-- A statement that has been read runs from the next token to the token read last. -/
class Spans (x : Parse (Stmt Mark)) : Prop where
  spans : ∀ {s : State} {node : Stmt Mark} {s' : State},
    x s = .ok node s' → node.span = ⟨s.here, s'.lastEnd⟩

namespace Closes

instance unfolds {x y : Parse (Stmt Mark)} [unfolds : Unfolds x y] [closes : Closes start y] :
    Closes start x :=
  unfolds.eq ▸ closes

instance bind {x : Parse β} {f : β → Parse (Stmt Mark)} [last : ∀ b, Closes start (f b)] :
    Closes start (x >>= f) where
  closes run := by
    obtain ⟨b, _, _, run⟩ := bind_eq_ok.1 run
    exact (last b).closes run

instance ite {c : Prop} [Decidable c] {x y : Parse (Stmt Mark)} [Closes start x]
    [Closes start y] : Closes start (if c then x else y) := by split <;> assumption

instance expected {what : String} : Closes start (Grammar.expected what) :=
  ⟨fun run => absurd run expected_ne_ok⟩

instance finishStmt {build : Mark → Stmt Mark} {apart : Bool} {children : List (Node Mark)}
    [made : MadeOf (fun mark => .stmt (build mark)) apart children] :
    Closes start (Grammar.finishStmt start build) where
  closes {s _ _} run := by
    obtain ⟨rfl, rfl⟩ := finishStmt_eq_ok.1 run
    exact congrArg Mark.span (made.made (s.stmtMarkFrom start)).1

instance forRest (head : Option (ForHead Mark)) (token : Token) :
    Closes start (Grammar.forRest p start head token) := by
  unfold Grammar.forRest
  split <;> infer_instance

end Closes

namespace Spans

instance unfolds {x y : Parse (Stmt Mark)} [unfolds : Unfolds x y] [spans : Spans y] : Spans x :=
  unfolds.eq ▸ spans

instance bump {f : Token → Parse (Stmt Mark)}
    [closes : ∀ token, Closes token.span.start (f token)] : Spans (Grammar.bump >>= f) where
  spans {s _ _} run := by
    obtain ⟨_, _, first, run⟩ := bind_eq_ok.1 run
    obtain ⟨rfl, _⟩ := bump_eq_ok.1 first
    exact (closes s.current).closes run

instance current {f : Token → Parse (Stmt Mark)}
    [closes : ∀ token, Closes token.span.start (f token)] : Spans (Grammar.current >>= f) where
  spans {s _ _} run := by
    obtain ⟨_, _, first, run⟩ := bind_eq_ok.1 run
    obtain ⟨rfl, _⟩ := current_eq_ok.1 first
    exact (closes s.current).closes run

/-- A test for the end in front changes nothing. -/
theorem beforeEnd {x : Parse (Stmt Mark)} (spans : Spans x) {what : String} :
    Spans (do
      if ← atEnd then Grammar.expected what
      x) where
  spans run := by
    obtain ⟨_, _, asked, run⟩ := bind_eq_ok.1 run
    obtain ⟨_, rfl⟩ := atEnd_eq_ok.1 asked
    split at run
    · obtain ⟨_, _, failed, _⟩ := bind_eq_ok.1 run
      exact absurd failed expected_ne_ok
    · exact spans.spans run

end Spans

/-! ## The productions -/

/-- A production that completes a statement from the next token on. -/
theorem span_of_closes {x : Parse (Stmt Mark)} [closes : Closes s.current.span.start x]
    {node : Stmt Mark} (run : x s = .ok node s') : node.span = ⟨s.here, s'.lastEnd⟩ :=
  closes.closes run

theorem span_of_statementAhead? {production : Parse (Stmt Mark)} {node : Stmt Mark}
    (found : statementAhead? p s = some production) (run : production s = .ok node s') :
    node.span = ⟨s.here, s'.lastEnd⟩ := by
  revert run
  refine of_statementAhead? (motive := fun x => x s = .ok node s' → _) found Spans.spans
    (fun _ => span_of_closes) (fun _ => span_of_closes) (fun _ _ => Spans.spans) fun _ => ?_
  and_intros <;> first | exact Spans.spans | exact span_of_closes

/-- **Every statement runs from the next token to the token read last.** -/
theorem statement_spans (p : Productions) : Spans (statement p) := by
  refine ⟨fun {s node s'} run => ?_⟩
  replace run := get_bind.symm.trans run
  cases found : statementAhead? p s with
  | some production =>
    rw [found] at run
    exact span_of_statementAhead? found run
  | none =>
    rw [found] at run
    exact Spans.spans run

/-! ## Statements one behind the other -/

/-- **Every token that is read along with statements is part of one of them.** -/
theorem exists_contains_of_manyUpTo {stop : Parse Bool} {item : Parse (Stmt Mark)}
    (stops : ∀ ⦃s b s'⦄, stop s = .ok b s' → s = s')
    [reads : Reads row item] (spans : Spans item) {bound : Nat} {items : List (Stmt Mark)}
    (stands : s.Stands row held)
    (run : manyUpTo stop item bound s = .ok items s') :
    ∀ token ∈ row.tokens, s.lastEnd ≤ token.span.start → token.span.stop ≤ s'.here →
      ∃ x ∈ items, x.span.contains token.span = true := by
  intro token mem lower upper
  have written := stands.lined.written token mem
  induction bound generalizing s items held with
  | zero => exact absurd run unexpected_ne_ok
  | succ bound ih =>
    obtain ⟨_, _, asked, run⟩ := bind_eq_ok.1 run
    obtain rfl := stops asked
    split at run
    · obtain ⟨_, rfl⟩ := pure_eq_ok.1 run
      have := stands.stop_le_lastEnd mem upper
      omega
    · obtain ⟨x, middle, first, run⟩ := bind_eq_ok.1 run
      obtain ⟨others, _, many, run⟩ := bind_eq_ok.1 run
      obtain ⟨rfl, rfl⟩ := pure_eq_ok.1 run
      have stands' := (reads.reads stands first).stands
      rcases stands'.read_or_mem mem with read | later
      -- a token is part of the first statement if it has been read when that one is complete
      · have unread : token ∈ s.rest := (stands.read_or_mem mem).resolve_left (by omega)
        refine ⟨x, by simp, Span.contains_iff.2 ?_⟩
        rw [spans.spans first]
        exact ⟨stands.here_le token unread, read⟩
      · obtain ⟨y, memY, holds⟩ := ih stands' many (stands'.lastEnd_le.1 token later)
        exact ⟨y, List.mem_cons_of_mem _ memY, holds⟩

end TidyScript.Grammar
