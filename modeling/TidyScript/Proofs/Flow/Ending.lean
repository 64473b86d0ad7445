import Mathlib.Logic.Relation
import TidyScript.Proofs.Flow.Completion
import TidyScript.Proofs.Rule.FlowFits
import TidyScript.Proofs.Token.Row

/-!
# What moves to a `finally`

The statement that ends a `try` block and its handler is judged by its shape alone. It is never a
jump itself. An execution of it that returns, breaks out of it or continues a loop around it goes
through a jump further down, at a statement inside it, and such an ending does move: what a
`finally` does with a pending return or exception is then another thing than before.

The names of the ending are compared with those of the handler's parameter. Both copies of the
ending have the same names, so neither uses the parameter. The names that the two blocks declare
are not looked at.
-/

namespace TidyScript

variable {α V : Type}

/-! ## Jumps -/

/-- Does the completion lead to a place outside, without an exception? -/
def Completion.isJump : Completion V → Bool
  | returned _ => true
  | broken _ => true
  | continued _ => true
  | _ => false

namespace Completion

theorem isJump_ofResult {use : V → Completion V} (quiet : ∀ value, (use value).isJump = false)
    (result : Except V V) : (ofResult use result).isJump = false := by
  cases result with
  | ok value => exact quiet value
  | error value => rfl

theorem isJump_of_leaveBreakable {c : Completion V} (jumps : c.leaveBreakable.isJump = true) :
    c.isJump = true := by
  cases c with
  | broken _ => rfl
  | _ => exact jumps

theorem isJump_of_leaveLabel {label : String} {c : Completion V}
    (jumps : (c.leaveLabel label).isJump = true) : c.isJump = true := by
  cases c with
  | broken _ => rfl
  | _ => exact jumps

theorem isJump_of_override {earlier later : Completion V}
    (jumps : (earlier.override later).isJump = true) :
    earlier.isJump = true ∨ later.isJump = true := by
  cases later with
  | normal => exact .inl jumps
  | _ => exact .inr jumps

end Completion

/-- Evaluating expressions leads nowhere else, unless it throws. -/
theorem Evaluates.isJump_eq {es : List (Expr α)} {trace : Trace α V} {c : Completion V}
    (evaluated : Evaluates es trace c) : c.isJump = false := by
  induction evaluated with
  | done => rfl
  | throws => rfl
  | next _ _ ih => exact ih

theorem Begins.isJump_eq {judge : Judge V} {round : Round α} {trace : Trace α V}
    {c : Completion V} (begins : Begins judge round trace (some c)) : c.isJump = false := by
  cases begins with
  | fails => rfl
  | throws => rfl
  | nothingLeft => rfl
  | assignmentThrows evaluated _ => exact evaluated.isJump_eq

namespace Stmt

/-- Is it a jump? Nothing is known of a hidden statement, so it may be one. -/
def isJump : Stmt α → Bool
  | returning _ _ => true
  | breaking _ _ => true
  | continuing _ _ => true
  | hidden _ => true
  | _ => false

/-- The statements directly inside a statement. Those of a function are executed elsewhere. -/
def inner : Stmt α → List (Stmt α)
  | function _ _ _ _ => []
  | s => s.children.filterMap fun
    | .stmt part => some part
    | .expr _ => none

/-- The second statement stands somewhere in the first, or is it. -/
abbrev Holds (s part : Stmt α) : Prop :=
  Relation.ReflTransGen (fun s part => part ∈ s.inner) s part

/-- A jump stands somewhere in the statement, or is it. -/
def HoldsJump (s : Stmt α) : Prop :=
  ∃ part, s.Holds part ∧ part.isJump = true

theorem HoldsJump.of_inner {s part : Stmt α} (mem : part ∈ s.inner) (jump : part.HoldsJump) :
    s.HoldsJump := by
  obtain ⟨deeper, holds, isJump⟩ := jump
  exact ⟨deeper, .head mem holds, isJump⟩

theorem HoldsJump.self {s : Stmt α} (isJump : s.isJump = true) : s.HoldsJump :=
  ⟨s, .refl, isJump⟩

/-- A jump stands in the statement and is not the statement itself. -/
theorem HoldsJump.exists_inner {s : Stmt α} (jump : s.HoldsJump) (other : s.isJump = false) :
    ∃ part ∈ s.inner, part.HoldsJump := by
  obtain ⟨deeper, holds, isJump⟩ := jump
  rcases Relation.ReflTransGen.cases_head holds with rfl | ⟨part, mem, holds⟩
  · rw [other] at isJump
    cases isJump
  · exact ⟨part, mem, deeper, holds, isJump⟩

theorem mem_inner_attempt {m : α} {body part : Stmt α} {handler : Option (Handler α)}
    {finalizer : Option (Stmt α)} (mem : part ∈ body :: handler.toList.map Handler.body) :
    part ∈ (attempt m body handler finalizer).inner := by
  rcases List.mem_cons.1 mem with rfl | mem
  · simp [inner, children]
  · obtain ⟨own, is, rfl⟩ := List.mem_map.1 mem
    rw [Option.mem_toList.1 is]
    simp [inner, children]

end Stmt

variable {judge : Judge V}

/-- The cases from the first match on are cases of the `switch`. -/
theorem Finds.subset {value : V} {cases : List (SwitchCase α)} {trace : Trace α V}
    {result : Except V (Option (List (SwitchCase α)))} (finds : Finds judge value cases trace result)
    {found : List (SwitchCase α)} (is : result = .ok (some found)) : found ⊆ cases := by
  induction finds with
  | none => cases is
  | default _ ih => exact fun arm mem => List.mem_cons_of_mem _ (ih is mem)
  | hit _ =>
    cases is
    exact List.Subset.refl _
  | miss _ _ ih => exact fun arm mem => List.mem_cons_of_mem _ (ih is mem)
  | throws => cases is

/-- What a `switch` executes stands in it. -/
theorem Finds.mem_inner {value : V} {cases : List (SwitchCase α)} {trace : Trace α V}
    {found : Option (List (SwitchCase α))} (finds : Finds judge value cases trace (.ok found))
    {m : α} {subject : Expr α} {part : Stmt α} (mem : part ∈ SwitchCase.statements cases found) :
    part ∈ (Stmt.switch m subject cases).inner := by
  obtain ⟨arm, inFound, mem⟩ := List.mem_flatMap.1 mem
  have inCases : arm ∈ cases := by
    cases found with
    | none => exact (List.dropWhile_suffix _).subset inFound
    | some found => exact finds.subset rfl inFound
  simp only [Stmt.inner, Stmt.children, List.mem_filterMap, List.mem_cons, List.mem_flatMap]
  exact ⟨.stmt part, .inr ⟨arm, inCases, by simp [mem]⟩, rfl⟩

mutual

/-- **An execution that leads elsewhere goes through a jump inside the statement.** -/
theorem Runs.holdsJump {labels : List String} {s : Stmt α} {trace : Trace α V}
    {c : Completion V} (run : Runs judge labels s trace c) (jumps : c.isJump = true) :
    s.HoldsJump := by
  match run with
  | .returnsNothing | .returning _ | .breaking | .continuing | .hidden _ _ => exact .self rfl
  | .expression evaluated | .declaration evaluated =>
    rw [evaluated.isJump_eq] at jumps
    cases jumps
  | .throwing result =>
    rw [Completion.isJump_ofResult (fun _ => rfl)] at jumps
    cases jumps
  | .consequent _ run => exact .of_inner (by simp [Stmt.inner, Stmt.children]) (run.holdsJump jumps)
  | .alternate _ run =>
    exact .of_inner (by simp [Stmt.inner, Stmt.children, Stmt.stmtNodes]) (run.holdsJump jumps)
  | .block run =>
    obtain ⟨part, mem, jump⟩ := run.exists_holdsJump jumps
    exact .of_inner (by simpa [Stmt.inner, Stmt.children] using mem) jump
  | .attempt run =>
    obtain ⟨part, mem, jump⟩ := run.exists_holdsJump jumps
    exact .of_inner (Stmt.mem_inner_attempt mem) jump
  | .finalized run last =>
    rcases Completion.isJump_of_override jumps with jumps | jumps
    · obtain ⟨part, mem, jump⟩ := run.exists_holdsJump jumps
      exact .of_inner (Stmt.mem_inner_attempt mem) jump
    · exact .of_inner (by simp [Stmt.inner, Stmt.children, Stmt.stmtNodes]) (last.holdsJump jumps)
  | .whileLoop loop | .forIn _ loop | .forOf _ loop =>
    exact .of_inner (by simp [Stmt.inner, Stmt.children]) (loop.holdsJump jumps)
  | .doWhileOnce run _ =>
    exact .of_inner (by simp [Stmt.inner, Stmt.children])
      (run.holdsJump (Completion.isJump_of_leaveBreakable jumps))
  | .doWhile _ _ loop => exact .of_inner (by simp [Stmt.inner, Stmt.children]) (loop.holdsJump jumps)
  | .initThrows run _ =>
    obtain ⟨part, mem, jump⟩ := run.exists_holdsJump jumps
    exact .of_inner (by simpa [Stmt.inner, Stmt.children, Stmt.stmtNodes] using .inl (by simpa using mem)) jump
  | .forLoop _ loop => exact .of_inner (by simp [Stmt.inner, Stmt.children]) (loop.holdsJump jumps)
  | .switch finds run =>
    obtain ⟨part, mem, jump⟩ := run.exists_holdsJump (Completion.isJump_of_leaveBreakable jumps)
    exact .of_inner (finds.mem_inner mem) jump
  | .labeled run =>
    exact .of_inner (by simp [Stmt.inner, Stmt.children])
      (run.holdsJump (Completion.isJump_of_leaveLabel jumps))

theorem RunsAll.exists_holdsJump {body : List (Stmt α)} {trace : Trace α V} {c : Completion V}
    (run : RunsAll judge body trace c) (jumps : c.isJump = true) :
    ∃ s ∈ body, s.HoldsJump := by
  match run with
  | .done => cases jumps
  | .stop run _ => exact ⟨_, List.mem_cons_self .., run.holdsJump jumps⟩
  | .next _ more =>
    obtain ⟨s, mem, jump⟩ := more.exists_holdsJump jumps
    exact ⟨s, List.mem_cons_of_mem _ mem, jump⟩

theorem RunsGuarded.exists_holdsJump {body : Stmt α} {handler : Option (Handler α)}
    {trace : Trace α V} {c : Completion V} (run : RunsGuarded judge body handler trace c)
    (jumps : c.isJump = true) : ∃ s ∈ body :: handler.toList.map Handler.body, s.HoldsJump := by
  match run with
  | .unhandled run | .passed run _ => exact ⟨_, List.mem_cons_self .., run.holdsJump jumps⟩
  | .caught _ _ handled => exact ⟨_, by simp [Handler.body], handled.holdsJump jumps⟩
  | .paramThrows _ bound _ =>
    rw [bound.isJump_eq] at jumps
    cases jumps

theorem RunsLoop.holdsJump {labels : List String} {round : Round α} {update : Option (Expr α)}
    {body : Stmt α} {trace : Trace α V} {c : Completion V}
    (run : RunsLoop judge labels round update body trace c) (jumps : c.isJump = true) :
    body.HoldsJump := by
  match run with
  | .ends begins =>
    rw [begins.isJump_eq] at jumps
    cases jumps
  | .leaves _ run _ => exact run.holdsJump (Completion.isJump_of_leaveBreakable jumps)
  | .updateThrows _ _ _ updated _ =>
    rw [updated.isJump_eq] at jumps
    cases jumps
  | .again _ _ _ _ more => exact more.holdsJump jumps

end

/-- Does the statement declare the name for the block around it? -/
def Stmt.binds (name : String) : Stmt α → Bool
  | .declaration _ kind declarators =>
    kind.isBlockScoped && declarators.any fun declarator =>
      match declarator.pattern with
      | .identifier _ own => own = name
      | _ => false
  | _ => false

theorem Stmt.isJump_of_isMovable {s : Stmt α} (movable : s.isMovable = true) :
    s.isJump = false := by
  cases s <;> first | rfl | cases movable

namespace Program

variable {program : Program}

/-- **A jump moves to a `finally` only inside another statement.** The common ending of a block
and its handler is no jump itself, and an execution of it that leads elsewhere goes through a jump
at a statement further inside. -/
theorem exists_inner_jump_of_commonEnding? {s : Stmt Mark} {ending : CommonEnding}
    (found : program.commonEnding? s = some ending) :
    ending.ofBlock.isJump = false ∧
      ∀ (judge : Judge V) (labels : List String) (trace : Trace Mark V) (c : Completion V),
        Runs judge labels ending.ofBlock trace c → c.isJump = true →
          ∃ part ∈ ending.ofBlock.inner, part.HoldsJump := by
  obtain ⟨_, _, _, _, -, -, -, movable, -⟩ := Seated.commonEnding?_eq_some found
  have other := Stmt.isJump_of_isMovable movable
  exact ⟨other, fun _ _ _ _ run jumps => (run.holdsJump jumps).exists_inner other⟩

/-- The judge of truth values. -/
abbrev truth : Judge Bool := ⟨fun v => v, fun v w => v == w⟩

end Program

/-- Is the statement a loop that continues the one with the given label at once? -/
def Stmt.continues (name : String) : Stmt α → Bool
  | .doWhile _ (.block _ [.continuing _ (some label)]) _ => label = name
  | _ => false

theorem Stmt.runs_of_continues {s : Stmt Mark} {name : String} (is : s.continues name = true) :
    Runs Program.truth [] s [] (.continued (some name)) := by
  unfold continues at is
  split at is
  · obtain rfl := of_decide_eq_true is
    exact .doWhileOnce (.block (.stop .continuing (by simp))) rfl
  · cases is

namespace Program

variable {program : Program}

theorem exists_inner_jump_of_commonEnding?_labeled :
    ∃ (program : Program) (s : Stmt Mark) (ending : CommonEnding) (trace : Trace Mark Bool),
      parse "x:for(;;)try\x7bdo\x7bcontinue x\x7dwhile(a)\x7dcatch\x7bdo\x7bcontinue x\x7dwhile(a)\x7d" =
          .ok program ∧
        program.commonEnding? s = some ending ∧
          Runs truth [] ending.ofBlock trace (.continued (some "x")) ∧
            ending.ofBlock.isJump = false ∧ ∃ part ∈ ending.ofBlock.inner, part.HoldsJump := by
  have checked : (parse
      "x:for(;;)try\x7bdo\x7bcontinue x\x7dwhile(a)\x7dcatch\x7bdo\x7bcontinue x\x7dwhile(a)\x7d").toOption.any
        (fun program => program.stmts.toList.any fun s => (program.commonEnding? s).any fun ending =>
          ending.ofBlock.continues "x") = true := by decide +kernel
  obtain ⟨program, read, checked⟩ := exists_ok_of_any checked
  obtain ⟨s, -, checked⟩ := List.any_eq_true.1 checked
  obtain ⟨ending, found, checked⟩ := (Option.any_eq_true ..).1 checked
  have run := Stmt.runs_of_continues checked
  obtain ⟨other, inner⟩ := exists_inner_jump_of_commonEnding? (V := Bool) found
  exact ⟨program, s, ending, [], read, found, run, other,
    inner truth [] [] _ run rfl⟩

/-! ## When an ending moves -/

/-- No name of the handler's parameter occurs in the statement. -/
theorem usesParam_eq_false_iff {handler : Handler Mark} {s : Stmt Mark} :
    program.usesParam handler s = false ↔
      ∀ param ∈ handler.param, ∀ name ∈ program.namesIn param.span,
        name ∉ program.namesIn s.span := by
  unfold usesParam
  cases handler.param with
  | none => simp
  | some param =>
    simp only [List.any_eq_false, List.contains_iff_mem, Option.mem_def, Option.some.injEq,
      forall_eq']
    exact ⟨fun free name bound used => free name used bound,
      fun free name used bound => free name bound used⟩

/-- Statements that read the same have the same names. -/
theorem namesIn_eq_of_sameStmt {a b : Stmt Mark} (same : program.sameStmt a b = true) :
    program.namesIn a.span = program.namesIn b.span := by
  have rows := Token.sameRow_iff_forall₂.1 same
  unfold namesIn
  generalize program.tokensIn a.span = as at rows
  generalize program.tokensIn b.span = bs at rows
  induction rows with
  | nil => rfl
  | cons first _ ih =>
    rw [List.filterMap_cons, List.filterMap_cons, Token.name_eq_of_same first, ih]

/-- What a move looks at: the parameter of the handler, and comments. -/
theorem hoistEnding?_ne_none_iff {mark : Mark} {body : Stmt Mark} {handler : Handler Mark}
    {finalizer : Option (Stmt Mark)} {ending : CommonEnding} :
    program.hoistEnding? (.attempt mark body (some handler) finalizer) ending ≠ .ok none ↔
      program.usesParam handler ending.ofHandler = false ∧
        program.hasCommentsIn (endingRemoval body ending.ofBlock) = false ∧
          program.hasCommentsIn (endingRemoval handler.body ending.ofHandler) = false := by
  have finish : ∀ (first second : Edit) (third : Except Fault Edit),
      (do return some (← Fix.ofEdits [first, second, ← third]) : Except Fault (Option Fix)) ≠
        .ok none := by
    intro first second third
    cases third with
    | error => nofun
    | ok third =>
      show (Fix.ofEdits [first, second, third] >>= fun fix => pure (some fix)) ≠ Except.ok none
      cases Fix.ofEdits [first, second, third] <;> nofun
  unfold hoistEnding?
  dsimp only
  split
  · next uses => simp [uses, pure, Except.pure]
  · next unused =>
    split
    · next comments =>
      rw [Bool.or_eq_true] at comments
      simp [pure, Except.pure]
      grind
    · next clean =>
      simp only [Bool.or_eq_true, not_or, Bool.not_eq_true] at clean unused
      exact ⟨fun _ => ⟨unused, clean⟩, fun _ => by split <;> exact finish _ _ _⟩

/-- The common ending of a `try` moves exactly when a move is not declined. -/
theorem Seated.exists_hoistEnding?_iff (seated : program.Seated) {mark : Mark} {body : Stmt Mark}
    {handler : Handler Mark} {finalizer : Option (Stmt Mark)} {ending : CommonEnding}
    (mem : .attempt mark body (some handler) finalizer ∈ program.stmts)
    (found : program.commonEnding? (.attempt mark body (some handler) finalizer) = some ending) :
    (∃ fix, program.hoistEnding? (.attempt mark body (some handler) finalizer) ending =
        .ok (some fix)) ↔
      program.usesParam handler ending.ofHandler = false ∧
        program.hasCommentsIn (endingRemoval body ending.ofBlock) = false ∧
          program.hasCommentsIn (endingRemoval handler.body ending.ofHandler) = false := by
  rw [← @hoistEnding?_ne_none_iff program mark body handler finalizer ending]
  obtain ⟨answer, is, -⟩ := seated.gives_hoistEnding? (seated.stmts _ mem) found
  rw [is]
  cases answer <;> simp

/-- Does nothing keep the ending in the `try`? -/
def movesEnding (program : Program) (ending : CommonEnding) : Stmt Mark → Bool
  | .attempt _ body (some handler) _ =>
    !program.usesParam handler ending.ofHandler &&
      !program.hasCommentsIn (endingRemoval body ending.ofBlock) &&
        !program.hasCommentsIn (endingRemoval handler.body ending.ofHandler)
  | _ => false

theorem Seated.exists_hoistEnding?_of_movesEnding (seated : program.Seated) {s : Stmt Mark}
    (mem : s ∈ program.stmts) {ending : CommonEnding}
    (found : program.commonEnding? s = some ending)
    (moves : program.movesEnding ending s = true) :
    ∃ fix, program.hoistEnding? s ending = .ok (some fix) := by
  obtain ⟨mark, body, handler, finalizer, rfl, -⟩ := Seated.commonEnding?_eq_some found
  simp only [movesEnding, Bool.and_eq_true, Bool.not_eq_true'] at moves
  exact (seated.exists_hoistEnding?_iff mem found).2 ⟨moves.1.1, moves.1.2, moves.2⟩

/-- **An ending moves exactly when no name of the handler's parameter is in it.** Comments in the
text that is removed apart, nothing else is asked, so the names of the parameter stay in the scope
of the handler: neither copy of an ending that moves has one of them. -/
theorem exists_hoistEnding?_iff_names {source : String} (read : parse source = .ok program)
    {s : Stmt Mark} (mem : s ∈ program.stmts) {ending : CommonEnding}
    (found : program.commonEnding? s = some ending) :
    ∃ mark body handler finalizer, s = .attempt mark body (some handler) finalizer ∧
      ((∃ fix, program.hoistEnding? s ending = .ok (some fix)) ↔
        (∀ param ∈ handler.param, ∀ name ∈ program.namesIn param.span,
          name ∉ program.namesIn ending.ofBlock.span ∧
            name ∉ program.namesIn ending.ofHandler.span) ∧
          program.hasCommentsIn (endingRemoval body ending.ofBlock) = false ∧
            program.hasCommentsIn (endingRemoval handler.body ending.ofHandler) = false) := by
  obtain ⟨mark, body, handler, finalizer, rfl, -, -, -, same⟩ :=
    Seated.commonEnding?_eq_some found
  refine ⟨mark, body, handler, finalizer, rfl, ?_⟩
  rw [(seated_of_parse read).2.exists_hoistEnding?_iff mem found, usesParam_eq_false_iff,
    namesIn_eq_of_sameStmt same]
  simp only [and_self]

end Program

/-- The `finally` of a `try`. -/
def Stmt.finalizer? : Stmt α → Option (Stmt α)
  | .attempt _ _ _ finalizer => finalizer
  | _ => none

/-- What the handler of a `try` binds. -/
def Stmt.param? : Stmt α → Option (Expr α)
  | .attempt _ _ (some handler) _ => handler.param
  | _ => none

namespace Program

theorem exists_hoistEnding?_iff_names_param :
    ∃ (program : Program) (mark : Mark) (body : Stmt Mark) (param : Expr Mark) (caught : Stmt Mark)
        (ending : CommonEnding),
      parse "try\x7ba(x)\x7dcatch(\x7by\x7d)\x7ba(x)\x7d" = .ok program ∧
        program.commonEnding? (.attempt mark body (some (.mk (some param) caught)) none) =
            some ending ∧
          program.namesIn param.span = ["y"] ∧
            ∃ fix, program.hoistEnding? (.attempt mark body (some (.mk (some param) caught)) none)
              ending = .ok (some fix) := by
  have checked : (parse "try\x7ba(x)\x7dcatch(\x7by\x7d)\x7ba(x)\x7d").toOption.any (fun program =>
      program.stmts.toList.any fun s => (program.commonEnding? s).any fun ending =>
        s.finalizer?.isNone && program.movesEnding ending s && s.param?.any fun param =>
          program.namesIn param.span = ["y"] && program.namesIn ending.ofBlock.span = ["a", "x"] &&
            program.namesIn ending.ofHandler.span = ["a", "x"]) = true := by decide +kernel
  obtain ⟨program, read, checked⟩ := exists_ok_of_any checked
  obtain ⟨s, mem, checked⟩ := List.any_eq_true.1 checked
  obtain ⟨ending, found, checked⟩ := (Option.any_eq_true ..).1 checked
  have mem : s ∈ program.stmts := by simpa using mem
  obtain ⟨mark, body, ⟨param, caught⟩, finalizer, rfl, moves⟩ :=
    exists_hoistEnding?_iff_names read mem found
  simp only [Stmt.finalizer?, Stmt.param?, Handler.param, Handler.body, movesEnding,
    Bool.and_eq_true, Bool.not_eq_true', Option.isNone_iff_eq_none, Option.any_eq_true,
    decide_eq_true_eq] at checked
  obtain ⟨⟨rfl, ⟨_, clean⟩, cleanHandler⟩, param, rfl, ⟨names, ofBlock⟩, ofHandler⟩ := checked
  refine ⟨program, _, _, _, _, ending, read, found, names, moves.2 ⟨?_, clean, cleanHandler⟩⟩
  rintro param ⟨⟩ name bound
  rw [names, List.mem_singleton] at bound
  rw [bound, ofBlock, ofHandler]
  decide

end Program

/-! ## Endings that should have stayed -/

/-- Is the statement an `if` that returns a value? -/
def Stmt.returnsIf : Stmt α → Bool
  | .branch _ _ (.returning _ (some _)) _ => true
  | _ => false

theorem Stmt.exists_runs_of_returnsIf {s : Stmt Mark} (is : s.returnsIf = true) :
    ∃ trace, Runs Program.truth [] s trace (.returned (some true)) := by
  unfold returnsIf at is
  split at is
  · exact ⟨_, .consequent rfl (.returning (.ok true))⟩
  · cases is

/-- Do both blocks of a `try` declare the name? -/
def Stmt.bindsTwice (name : String) : Stmt α → Bool
  | .attempt _ body (some handler) _ =>
    body.statements.any (binds name) && handler.body.statements.any (binds name)
  | _ => false

namespace Program

/-- A `return` inside an `if` moves to a `finally`, where it overrides a pending exception. -/
theorem hoistEnding?_moves_return :
    ∃ (program : Program) (s : Stmt Mark) (ending : CommonEnding) (trace : Trace Mark Bool),
      parse "try\x7bif(a)return b\x7dcatch\x7bif(a)return b\x7d" = .ok program ∧
        program.commonEnding? s = some ending ∧
          (∃ fix, program.hoistEnding? s ending = .ok (some fix)) ∧
            Runs truth [] ending.ofBlock trace (.returned (some true)) := by
  have checked : (parse "try\x7bif(a)return b\x7dcatch\x7bif(a)return b\x7d").toOption.any
      (fun program => program.stmts.toList.any fun s => (program.commonEnding? s).any fun ending =>
        ending.ofBlock.returnsIf && program.movesEnding ending s) = true := by decide +kernel
  obtain ⟨program, read, checked⟩ := exists_ok_of_any checked
  obtain ⟨s, mem, checked⟩ := List.any_eq_true.1 checked
  obtain ⟨ending, found, checked⟩ := (Option.any_eq_true ..).1 checked
  obtain ⟨returns, moves⟩ := Bool.and_eq_true_iff.1 checked
  have mem : s ∈ program.stmts := by simpa using mem
  obtain ⟨trace, run⟩ := Stmt.exists_runs_of_returnsIf returns
  exact ⟨program, s, ending, trace, read, found,
    (seated_of_parse read).2.exists_hoistEnding?_of_movesEnding mem found moves, run⟩

/-- The call of `b` moves out of the two blocks that declare the `x` it uses. -/
theorem hoistEnding?_moves_declared_name :
    ∃ (program : Program) (mark : Mark) (body : Stmt Mark) (handler : Handler Mark)
        (ending : CommonEnding),
      parse "try\x7blet x=a();b(x)\x7dcatch\x7blet x=c();b(x)\x7d" = .ok program ∧
        program.commonEnding? (.attempt mark body (some handler) none) = some ending ∧
          (∃ fix, program.hoistEnding? (.attempt mark body (some handler) none) ending =
            .ok (some fix)) ∧
            body.statements.any (Stmt.binds "x") = true ∧
              handler.body.statements.any (Stmt.binds "x") = true ∧
                "x" ∈ program.namesIn ending.ofBlock.span := by
  have checked : (parse "try\x7blet x=a();b(x)\x7dcatch\x7blet x=c();b(x)\x7d").toOption.any
      (fun program => program.stmts.toList.any fun s => (program.commonEnding? s).any fun ending =>
        s.finalizer?.isNone && s.bindsTwice "x" && program.movesEnding ending s &&
          (program.namesIn ending.ofBlock.span).contains "x") = true := by decide +kernel
  obtain ⟨program, read, checked⟩ := exists_ok_of_any checked
  obtain ⟨s, mem, checked⟩ := List.any_eq_true.1 checked
  obtain ⟨ending, found, checked⟩ := (Option.any_eq_true ..).1 checked
  have mem : s ∈ program.stmts := by simpa using mem
  obtain ⟨mark, body, handler, finalizer, rfl, -⟩ := Seated.commonEnding?_eq_some found
  simp only [Stmt.finalizer?, Stmt.bindsTwice, Bool.and_eq_true, Option.isNone_iff_eq_none,
    List.contains_iff_mem] at checked
  obtain ⟨⟨⟨rfl, inBody, inHandler⟩, moves⟩, used⟩ := checked
  exact ⟨program, _, _, _, ending, read, found,
    (seated_of_parse read).2.exists_hoistEnding?_of_movesEnding mem found moves,
    inBody, inHandler, used⟩

end Program

end TidyScript
