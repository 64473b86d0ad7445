import Mathlib.Data.Set.Defs
import TidyScript.Flow.Leaving

/-!
# How statements complete

A statement completes normally, or it returns, throws, breaks or continues. Executions are
described here without a store: an expression may give any value or throw any, and an execution
comes with its trace, the expressions that it evaluates with what each of them gave. Whatever a
store would make of an execution depends on its trace alone.

A statement that leaves, as `Stmt.leaves` judges it by its shape, has no execution that completes
normally, unless there is a loop in it: a loop is judged by its body, which may never run. What
stands behind such a statement is never reached. So an `else` behind a branch that leaves may as
well follow the `if`.

The argument goes by the shape of the statement. That a `try` does not complete normally is due to
its `finally`, which overrides, or to both its block and its handler.
-/

namespace TidyScript

variable {α V : Type}

/-- How the execution of a statement ends. -/
inductive Completion (V : Type) where
  | normal
  | returned (value : Option V)
  | thrown (value : V)
  | broken (label : Option String)
  | continued (label : Option String)

/-- The expressions that an execution evaluates, each with the value that it gives (`ok`) or
throws (`error`). -/
abbrev Trace (α V : Type) : Type :=
  List (Expr α × Except V V)

/-- What statements ask about values. -/
structure Judge (V : Type) where
  /-- Does a test with this value hold? -/
  holds : V → Bool
  /-- Does a case with this value belong to a `switch` over that one? -/
  agrees : V → V → Bool

namespace Completion

/-- The completion behind the evaluation of an expression, given how its value is used. -/
def ofResult (use : V → Completion V) : Except V V → Completion V
  | .ok value => use value
  | .error value => thrown value

/-- Is there another round of a loop with these labels when its body completes this way? -/
def repeats (labels : List String) : Completion V → Bool
  | normal => true
  | continued none => true
  | continued (some label) => labels.contains label
  | _ => false

/-- The completion of a loop or a `switch` that is left this way. -/
def leaveBreakable : Completion V → Completion V
  | broken none => normal
  | other => other

/-- The completion of a labeled statement whose body completes this way. -/
def leaveLabel (label : String) : Completion V → Completion V
  | broken (some target) => if target = label then normal else broken (some target)
  | other => other

/-- The completion of a `try` whose `finally` completes the second way. -/
def override (earlier : Completion V) : Completion V → Completion V
  | normal => earlier
  | later => later

theorem override_ne_normal {earlier later : Completion V}
    (abrupt : earlier ≠ normal ∨ later ≠ normal) : earlier.override later ≠ normal := by
  cases later with
  | normal => exact abrupt.resolve_right fun ne => ne rfl
  | _ => nofun

end Completion

/-! ## Executions -/

/-- Evaluates expressions in order, until one of them throws. -/
inductive Evaluates : List (Expr α) → Trace α V → Completion V → Prop where
  | done : Evaluates [] [] .normal
  | throws (e : Expr α) (es : List (Expr α)) (value : V) :
      Evaluates (e :: es) [(e, .error value)] (.thrown value)
  | next {e : Expr α} {es : List (Expr α)} {trace : Trace α V} {c : Completion V} (value : V)
      (more : Evaluates es trace c) : Evaluates (e :: es) ((e, .ok value) :: trace) c

/-- What decides whether a loop has another round. -/
inductive Round (α : Type) where
  /-- The round begins when the test, if there is one, holds. -/
  | tested (test : Option (Expr α))
  /-- The round begins when there is something left to assign to the targets. -/
  | assigned (targets : List (Expr α))

/-- The targets that the head of a loop over an object or its values assigns to. -/
def ForHead.targets : ForHead α → List (Expr α)
  | .declaration (.declaration _ _ declarators) => declarators.map Declarator.pattern
  | .declaration _ => []
  | .pattern target => [target]

/-- The evaluations in front of a round, which begins (`none`) unless the loop completes. -/
inductive Begins (judge : Judge V) : Round α → Trace α V → Option (Completion V) → Prop where
  | untested : Begins judge (.tested none) [] none
  | holds {test : Expr α} {value : V} (holds : judge.holds value = true) :
      Begins judge (.tested (some test)) [(test, .ok value)] none
  | fails {test : Expr α} {value : V} (fails : judge.holds value = false) :
      Begins judge (.tested (some test)) [(test, .ok value)] (some .normal)
  | throws (test : Expr α) (value : V) :
      Begins judge (.tested (some test)) [(test, .error value)] (some (.thrown value))
  | nothingLeft (targets : List (Expr α)) : Begins judge (.assigned targets) [] (some .normal)
  | assigned {targets : List (Expr α)} {trace : Trace α V}
      (evaluated : Evaluates targets trace .normal) :
      Begins judge (.assigned targets) trace none
  | assignmentThrows {targets : List (Expr α)} {trace : Trace α V} {c : Completion V}
      (evaluated : Evaluates targets trace c) (abrupt : c ≠ .normal) :
      Begins judge (.assigned targets) trace (some c)

/-- Compares the value of a `switch` with its cases in order. Gives the cases from the first match
on, or none, or what a case throws. -/
inductive Finds (judge : Judge V) (value : V) :
    List (SwitchCase α) → Trace α V → Except V (Option (List (SwitchCase α))) → Prop where
  | none : Finds judge value [] [] (.ok none)
  | default {body : List (Stmt α)} {cases : List (SwitchCase α)} {trace : Trace α V}
      {found : Except V (Option (List (SwitchCase α)))} (more : Finds judge value cases trace found) :
      Finds judge value (.mk none body :: cases) trace found
  | hit {test : Expr α} {body : List (Stmt α)} {cases : List (SwitchCase α)} {own : V}
      (same : judge.agrees value own = true) :
      Finds judge value (.mk (some test) body :: cases) [(test, .ok own)]
        (.ok (some (.mk (some test) body :: cases)))
  | miss {test : Expr α} {body : List (Stmt α)} {cases : List (SwitchCase α)} {own : V}
      {trace : Trace α V} {found : Except V (Option (List (SwitchCase α)))}
      (other : judge.agrees value own = false) (more : Finds judge value cases trace found) :
      Finds judge value (.mk (some test) body :: cases) ((test, .ok own) :: trace) found
  | throws (test : Expr α) (body : List (Stmt α)) (cases : List (SwitchCase α)) (thrown : V) :
      Finds judge value (.mk (some test) body :: cases) [(test, .error thrown)] (.error thrown)

/-- The statements that a `switch` executes, given the cases from the first match on: without a
match, those from the default case on. -/
def SwitchCase.statements (cases : List (SwitchCase α)) (found : Option (List (SwitchCase α))) :
    List (Stmt α) :=
  (found.getD (cases.dropWhile fun arm => arm.test.isSome)).flatMap SwitchCase.consequent

mutual

/-- The statement, with the given labels in front of it, has an execution with this trace and this
completion. -/
inductive Runs (judge : Judge V) : List String → Stmt α → Trace α V → Completion V → Prop where
  | expression {labels m value trace c} (evaluated : Evaluates [value] trace c) :
      Runs judge labels (.expression m value) trace c
  | declaration {labels m kind declarators trace c}
      (evaluated : Evaluates
        (declarators.flatMap fun declarator => declarator.init.toList ++ [declarator.pattern])
        trace c) :
      Runs judge labels (.declaration m kind declarators) trace c
  | function {labels m name params body} :
      Runs judge labels (.function m name params body) [] .normal
  | returnsNothing {labels m} : Runs judge labels (.returning m none) [] (.returned none)
  | returning {labels m value} (result : Except V V) :
      Runs judge labels (.returning m (some value)) [(value, result)]
        (.ofResult (fun v => .returned (some v)) result)
  | throwing {labels m value} (result : Except V V) :
      Runs judge labels (.throwing m value) [(value, result)] (.ofResult .thrown result)
  | breaking {labels m label} : Runs judge labels (.breaking m label) [] (.broken label)
  | continuing {labels m label} : Runs judge labels (.continuing m label) [] (.continued label)
  | empty {labels m} : Runs judge labels (.empty m) [] .normal
  | hidden {labels m} (trace c) : Runs judge labels (.hidden m) trace c
  | testThrows {labels m test consequent alternate} (value : V) :
      Runs judge labels (.branch m test consequent alternate) [(test, .error value)] (.thrown value)
  | consequent {labels m test consequent alternate value trace c}
      (holds : judge.holds value = true) (run : Runs judge [] consequent trace c) :
      Runs judge labels (.branch m test consequent alternate) ((test, .ok value) :: trace) c
  | alternate {labels m test consequent alternate value trace c}
      (fails : judge.holds value = false) (run : Runs judge [] alternate trace c) :
      Runs judge labels (.branch m test consequent (some alternate)) ((test, .ok value) :: trace) c
  | noAlternate {labels m test consequent value} (fails : judge.holds value = false) :
      Runs judge labels (.branch m test consequent none) [(test, .ok value)] .normal
  | block {labels m body trace c} (run : RunsAll judge body trace c) :
      Runs judge labels (.block m body) trace c
  | attempt {labels m body handler trace c} (run : RunsGuarded judge body handler trace c) :
      Runs judge labels (.attempt m body handler none) trace c
  | finalized {labels m body handler finalizer trace c trace' c'}
      (run : RunsGuarded judge body handler trace c) (last : Runs judge [] finalizer trace' c') :
      Runs judge labels (.attempt m body handler (some finalizer)) (trace ++ trace') (c.override c')
  | whileLoop {labels m test body trace c}
      (run : RunsLoop judge labels (.tested (some test)) none body trace c) :
      Runs judge labels (.whileLoop m test body) trace c
  | doWhileOnce {labels m body test trace c} (run : Runs judge [] body trace c)
      (leaves : c.repeats labels = false) :
      Runs judge labels (.doWhile m body test) trace c.leaveBreakable
  | doWhile {labels m body test trace c trace' c'} (run : Runs judge [] body trace c)
      (again : c.repeats labels = true)
      (loop : RunsLoop judge labels (.tested (some test)) none body trace' c') :
      Runs judge labels (.doWhile m body test) (trace ++ trace') c'
  | initThrows {labels m init test update body trace c}
      (run : RunsAll judge init.toList trace c) (abrupt : c ≠ .normal) :
      Runs judge labels (.forLoop m init test update body) trace c
  | forLoop {labels m init test update body trace trace' c}
      (run : RunsAll judge init.toList trace .normal)
      (loop : RunsLoop judge labels (.tested test) update body trace' c) :
      Runs judge labels (.forLoop m init test update body) (trace ++ trace') c
  | forInThrows {labels m head subject body} (value : V) :
      Runs judge labels (.forIn m head subject body) [(subject, .error value)] (.thrown value)
  | forIn {labels m head subject body trace c} (value : V)
      (loop : RunsLoop judge labels (.assigned head.targets) none body trace c) :
      Runs judge labels (.forIn m head subject body) ((subject, .ok value) :: trace) c
  | forOfThrows {labels m head subject body} (value : V) :
      Runs judge labels (.forOf m head subject body) [(subject, .error value)] (.thrown value)
  | forOf {labels m head subject body trace c} (value : V)
      (loop : RunsLoop judge labels (.assigned head.targets) none body trace c) :
      Runs judge labels (.forOf m head subject body) ((subject, .ok value) :: trace) c
  | switchThrows {labels m subject cases} (value : V) :
      Runs judge labels (.switch m subject cases) [(subject, .error value)] (.thrown value)
  | caseThrows {labels m subject cases value trace thrown}
      (found : Finds judge value cases trace (.error thrown)) :
      Runs judge labels (.switch m subject cases) ((subject, .ok value) :: trace) (.thrown thrown)
  | switch {labels m subject cases value trace found trace' c}
      (finds : Finds judge value cases trace (.ok found))
      (run : RunsAll judge (SwitchCase.statements cases found) trace' c) :
      Runs judge labels (.switch m subject cases) ((subject, .ok value) :: (trace ++ trace'))
        c.leaveBreakable
  | labeled {labels m label body trace c} (run : Runs judge (label :: labels) body trace c) :
      Runs judge labels (.labeled m label body) trace (c.leaveLabel label)

/-- The statements, one behind the other, have an execution with this trace and this completion. -/
inductive RunsAll (judge : Judge V) : List (Stmt α) → Trace α V → Completion V → Prop where
  | done : RunsAll judge [] [] .normal
  | stop {s rest trace c} (run : Runs judge [] s trace c) (abrupt : c ≠ .normal) :
      RunsAll judge (s :: rest) trace c
  | next {s rest trace trace' c} (run : Runs judge [] s trace .normal)
      (more : RunsAll judge rest trace' c) : RunsAll judge (s :: rest) (trace ++ trace') c

/-- The block of a `try`, with its handler if it throws, has an execution with this trace and this
completion. -/
inductive RunsGuarded (judge : Judge V) :
    Stmt α → Option (Handler α) → Trace α V → Completion V → Prop where
  | unhandled {body trace c} (run : Runs judge [] body trace c) :
      RunsGuarded judge body none trace c
  | passed {body handler trace c} (run : Runs judge [] body trace c)
      (nothing : ∀ value, c ≠ .thrown value) : RunsGuarded judge body (some handler) trace c
  | caught {body param handler trace value trace' trace'' c}
      (run : Runs judge [] body trace (.thrown value))
      (bound : Evaluates param.toList trace' .normal) (handled : Runs judge [] handler trace'' c) :
      RunsGuarded judge body (some (.mk param handler)) (trace ++ trace' ++ trace'') c
  | paramThrows {body param handler trace value trace' c}
      (run : Runs judge [] body trace (.thrown value))
      (bound : Evaluates param.toList trace' c) (abrupt : c ≠ .normal) :
      RunsGuarded judge body (some (.mk param handler)) (trace ++ trace') c

/-- The rounds of a loop with the given labels, and with an expression to evaluate between them,
have an execution with this trace and this completion. -/
inductive RunsLoop (judge : Judge V) :
    List String → Round α → Option (Expr α) → Stmt α → Trace α V → Completion V → Prop where
  | ends {labels round update body trace c} (begins : Begins judge round trace (some c)) :
      RunsLoop judge labels round update body trace c
  | leaves {labels round update body trace trace' c} (begins : Begins judge round trace none)
      (run : Runs judge [] body trace' c) (leaves : c.repeats labels = false) :
      RunsLoop judge labels round update body (trace ++ trace') c.leaveBreakable
  | updateThrows {labels round update body trace trace' trace'' c c'}
      (begins : Begins judge round trace none) (run : Runs judge [] body trace' c)
      (again : c.repeats labels = true) (updated : Evaluates update.toList trace'' c')
      (abrupt : c' ≠ .normal) :
      RunsLoop judge labels round update body (trace ++ trace' ++ trace'') c'
  | again {labels round update body trace trace' trace'' trace''' c c'}
      (begins : Begins judge round trace none) (run : Runs judge [] body trace' c)
      (again : c.repeats labels = true) (updated : Evaluates update.toList trace'' .normal)
      (more : RunsLoop judge labels round update body trace''' c') :
      RunsLoop judge labels round update body (trace ++ trace' ++ trace'' ++ trace''') c'

end

/-- The traces and completions that the statements, one behind the other, may have. -/
def outcomes (judge : Judge V) (statements : List (Stmt α)) : Set (Trace α V × Completion V) :=
  { outcome | RunsAll judge statements outcome.1 outcome.2 }

/-! ## Statements that do not complete normally -/

/-- No execution of the statement completes normally. -/
def Abrupt (judge : Judge V) (s : Stmt α) : Prop :=
  ∀ ⦃labels trace c⦄, Runs judge labels s trace c → c ≠ .normal

/-- No execution of the statements, one behind the other, completes normally. -/
def AbruptAll (judge : Judge V) (body : List (Stmt α)) : Prop :=
  ∀ ⦃trace c⦄, RunsAll judge body trace c → c ≠ .normal

section Closure

variable {judge : Judge V} {m : α} {test : Expr α} {s body finalizer : Stmt α}
  {rest : List (Stmt α)} {handler : Option (Handler α)}

/-- Nothing behind an abrupt statement is reached. -/
theorem AbruptAll.head (abrupt : Abrupt judge s) : AbruptAll judge (s :: rest) := by
  intro trace c run
  cases run with
  | stop _ abrupt => exact abrupt
  | next run _ => exact absurd rfl (abrupt run)

theorem AbruptAll.tail (abrupt : AbruptAll judge rest) : AbruptAll judge (s :: rest) := by
  intro trace c run
  cases run with
  | stop _ abrupt => exact abrupt
  | next _ more => exact abrupt more

namespace Abrupt

theorem returning {value : Option (Expr α)} : Abrupt judge (.returning m value) := by
  intro labels trace c run
  cases run with
  | returnsNothing => nofun
  | returning result =>
    cases result with
    | ok => nofun
    | error => nofun

theorem branch {alternate : Stmt α} (consequent : Abrupt judge s)
    (other : Abrupt judge alternate) : Abrupt judge (.branch m test s (some alternate)) := by
  intro labels trace c run
  cases run with
  | testThrows => nofun
  | consequent _ run => exact consequent run
  | alternate _ run => exact other run

theorem block (abrupt : AbruptAll judge rest) : Abrupt judge (.block m rest) := by
  intro labels trace c run
  cases run with
  | block run => exact abrupt run

/-- A block and its handler that are both abrupt are so together. -/
theorem guarded {param : Option (Expr α)} {caught : Stmt α} {trace : Trace α V} {c : Completion V}
    (abrupt : Abrupt judge body) (handled : Abrupt judge caught)
    (run : RunsGuarded judge body (some (.mk param caught)) trace c) : c ≠ .normal := by
  cases run with
  | passed run _ => exact abrupt run
  | caught _ _ run => exact handled run
  | paramThrows _ _ abrupt => exact abrupt

theorem attempt {param : Option (Expr α)} {caught : Stmt α} {last : Option (Stmt α)}
    (abrupt : Abrupt judge body) (handled : Abrupt judge caught) :
    Abrupt judge (.attempt m body (some (.mk param caught)) last) := by
  intro labels trace c run
  cases run with
  | attempt run => exact guarded abrupt handled run
  | finalized run _ => exact Completion.override_ne_normal (.inl (guarded abrupt handled run))

/-- An abrupt `finally` overrides whatever comes before it. -/
theorem finalized (abrupt : Abrupt judge finalizer) :
    Abrupt judge (.attempt m body handler (some finalizer)) := by
  intro labels trace c run
  cases run with
  | finalized _ last => exact Completion.override_ne_normal (.inr (abrupt last))

end Abrupt

/-- Behind a test, what follows an abrupt statement may stand in an `else` as well. -/
theorem outcomes_branch {m' : α} {alternate : Stmt α} (abrupt : Abrupt judge s) :
    outcomes judge (.branch m test s (some alternate) :: rest) =
      outcomes judge (.branch m' test s none :: alternate :: rest) := by
  ext ⟨trace, c⟩
  constructor
  · intro run
    cases run with
    | stop run stops =>
      cases run with
      | testThrows value => exact .stop (.testThrows value) nofun
      | consequent holds run => exact .stop (.consequent holds run) stops
      | alternate fails run => exact .next (.noAlternate fails) (.stop run stops)
    | next run more =>
      cases run with
      | consequent _ run => exact absurd rfl (abrupt run)
      | alternate fails run =>
        have whole := RunsAll.next (@Runs.noAlternate α V judge [] m' test s _ fails)
          (.next run more)
        exact whole
  · intro run
    cases run with
    | stop run stops =>
      cases run with
      | testThrows value => exact .stop (.testThrows value) nofun
      | consequent holds run => exact .stop (.consequent holds run) stops
      | noAlternate => exact absurd rfl stops
    | next run more =>
      cases run with
      | consequent _ run => exact absurd rfl (abrupt run)
      | noAlternate fails =>
        cases more with
        | stop run stops => exact .stop (.alternate fails run) stops
        | next run more =>
          have whole := RunsAll.next (@Runs.alternate α V judge [] m test s _ _ _ _ fails run) more
          exact whole

end Closure

namespace Stmt

mutual

/-- Is there no loop in the statement, functions inside it apart? -/
def loopless : Stmt α → Bool
  | branch _ _ consequent none => loopless consequent
  | branch _ _ consequent (some alternate) => loopless consequent && loopless alternate
  | block _ body => allLoopless body
  | forLoop _ _ _ _ _ => false
  | forIn _ _ _ _ => false
  | forOf _ _ _ _ => false
  | whileLoop _ _ _ => false
  | doWhile _ _ _ => false
  | attempt _ body none none => loopless body
  | attempt _ body (some (.mk _ handler)) none => loopless body && loopless handler
  | attempt _ body none (some finalizer) => loopless body && loopless finalizer
  | attempt _ body (some (.mk _ handler)) (some finalizer) =>
    loopless body && loopless handler && loopless finalizer
  | switch _ _ cases => casesLoopless cases
  | labeled _ _ body => loopless body
  | _ => true

/-- Is there no loop in any of the statements? -/
def allLoopless : List (Stmt α) → Bool
  | [] => true
  | s :: rest => loopless s && allLoopless rest

/-- Is there no loop in any of the cases? -/
def casesLoopless : List (SwitchCase α) → Bool
  | [] => true
  | .mk _ body :: cases => allLoopless body && casesLoopless cases

end

variable {judge : Judge V}

mutual

/-- **A statement without loops that leaves does not complete normally.** -/
theorem abrupt_of_leaves (s : Stmt α) (leaves : leavesWith false s = true)
    (noLoop : loopless s = true) : Abrupt judge s := by
  match s with
  | returning _ _ => exact .returning
  | block _ body =>
    rw [leavesWith] at leaves
    rw [loopless] at noLoop
    exact .block (abruptAll_of_someLeaves body leaves noLoop)
  | branch _ _ _ none =>
    rw [leavesWith, Bool.and_false] at leaves
    cases leaves
  | branch _ _ consequent (some alternate) =>
    rw [leavesWith, Bool.and_eq_true] at leaves
    rw [loopless, Bool.and_eq_true] at noLoop
    exact .branch (abrupt_of_leaves consequent leaves.1 noLoop.1)
      (abrupt_of_leaves alternate leaves.2 noLoop.2)
  | attempt _ _ none none =>
    rw [leavesWith] at leaves
    cases leaves
  | attempt _ body (some (.mk _ handler)) none =>
    rw [leavesWith, Bool.and_eq_true] at leaves
    rw [loopless, Bool.and_eq_true] at noLoop
    exact .attempt (abrupt_of_leaves body leaves.1 noLoop.1)
      (abrupt_of_leaves handler leaves.2 noLoop.2)
  | attempt _ _ none (some finalizer) =>
    rw [leavesWith] at leaves
    rw [loopless, Bool.and_eq_true] at noLoop
    exact .finalized (abrupt_of_leaves finalizer leaves noLoop.2)
  | attempt _ body (some (.mk _ handler)) (some finalizer) =>
    rw [leavesWith, Bool.or_eq_true, Bool.and_eq_true] at leaves
    rw [loopless, Bool.and_eq_true, Bool.and_eq_true] at noLoop
    rcases leaves with last | both
    · exact .finalized (abrupt_of_leaves finalizer last noLoop.2)
    · exact .attempt (abrupt_of_leaves body both.1 noLoop.1.1)
        (abrupt_of_leaves handler both.2 noLoop.1.2)
  -- A loop is ruled out, and no other statement is said to leave.
  | forLoop _ _ _ _ _ | .forIn _ _ _ _ | forOf _ _ _ _ | whileLoop _ _ _ | doWhile _ _ _ =>
    rw [loopless] at noLoop
    cases noLoop
  | expression _ _ | declaration _ _ _ | function _ _ _ _ | throwing _ _ | breaking _ _
  | continuing _ _ | switch _ _ _ | labeled _ _ _ | empty _ | hidden _ =>
    simp [leavesWith] at leaves

theorem abruptAll_of_someLeaves (body : List (Stmt α))
    (leaves : someLeavesWith false body = true) (noLoop : allLoopless body = true) :
    AbruptAll judge body := by
  match body with
  | [] =>
    rw [someLeavesWith] at leaves
    cases leaves
  | s :: rest =>
    rw [someLeavesWith, Bool.or_eq_true] at leaves
    rw [allLoopless, Bool.and_eq_true] at noLoop
    rcases leaves with first | later
    · exact .head (abrupt_of_leaves s first noLoop.1)
    · exact .tail (abruptAll_of_someLeaves rest later noLoop.2)

end

/-- **A statement without loops that leaves never completes normally, and an `else` behind it may
as well follow the `if`.** The outcomes are the same, trace by trace, whatever follows. Breaks and
continues do no harm: they do not complete normally either. -/
theorem outcomes_of_leaves {s : Stmt α} (leaves : s.leaves = true) (noLoop : s.loopless = true)
    (judge : Judge V) :
    (∀ labels trace c, Runs judge labels s trace c → c ≠ .normal) ∧
      ∀ m m' test alternate rest,
        outcomes judge (.branch m test s (some alternate) :: rest) =
          outcomes judge (.branch m' test s none :: alternate :: rest) := by
  have abrupt := @abrupt_of_leaves α V judge s leaves noLoop
  exact ⟨fun _ _ _ run => abrupt run, fun _ _ _ _ _ => outcomes_branch abrupt⟩

/-- A `try` whose block returns or throws and whose handler returns, with a `finally` that may
complete normally. -/
def guardedReturn : Stmt Unit :=
  .attempt ()
    (.block () [.branch () (.identifier () "found") (.returning () (some (.identifier () "item")))
      (some (.block () [.expression () (.identifier () "log"), .returning () none])), .empty ()])
    (some (.mk (some (.identifier () "error")) (.block () [.returning () none])))
    (some (.block () [.expression () (.identifier () "close")]))

theorem outcomes_of_leaves_guardedReturn :
    guardedReturn.leaves = true ∧ guardedReturn.loopless = true ∧
      outcomes (⟨fun v => v, fun v w => v == w⟩ : Judge Bool)
          [.branch () (.identifier () "ready") guardedReturn (some (.empty ()))] =
        outcomes ⟨fun v => v, fun v w => v == w⟩
          [.branch () (.identifier () "ready") guardedReturn none, .empty ()] :=
  ⟨by decide, by decide, (outcomes_of_leaves (by decide) (by decide) _).2 () () _ _ []⟩

/-- A loop may be passed over, although its body leaves. -/
example : (whileLoop () (.identifier () "more") (.returning () none)).leaves = true ∧
    Runs (⟨fun v => v, fun v w => v == w⟩ : Judge Bool) []
      (whileLoop () (.identifier () "more") (.returning () none))
      [(.identifier () "more", .ok false)] .normal :=
  ⟨by decide, .whileLoop (.ends (.fails rfl))⟩

end Stmt

end TidyScript
