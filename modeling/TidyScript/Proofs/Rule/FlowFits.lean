import TidyScript.Proofs.Rule.LogicFits
import TidyScript.Rule.Flow

/-!
# The rules on statements always answer

On a program that stands on its source, the rules on statements cut out the texts of nodes, the
text between two statements of one list, and the inside of a block. All of these lie between
boundaries. The fixes move a statement only to a place behind the text that they remove, so their
edits never overlap.
-/

namespace TidyScript.Program

open Text (Boundary)

variable {program : Program}

/-- The statements stand one behind the other. -/
abbrev Lined (program : Program) (body : List (Stmt Mark)) : Prop :=
  (body.map Node.stmt).Pairwise (fun a b => a.mark.outer.stop ≤ b.mark.outer.start) ∧
    ∀ s ∈ body, program.Holds (.stmt s)

/-- Of two statements in a line, the first ends before the second starts. -/
theorem stop_le_start {a b : Stmt Mark} (heldA : program.Holds (.stmt a))
    (heldB : program.Holds (.stmt b)) (before : a.mark.outer.stop ≤ b.mark.outer.start) :
    a.span.stop ≤ b.span.start :=
  Nat.le_trans heldA.seated.around.2 (Nat.le_trans before heldB.seated.around.1)

namespace Lined

theorem tail {s : Stmt Mark} {rest : List (Stmt Mark)} (lined : program.Lined (s :: rest)) :
    program.Lined rest :=
  ⟨(List.pairwise_cons.1 lined.1).2, fun x mem => lined.2 x (List.mem_cons_of_mem _ mem)⟩

/-- The first statement of a line ends before all others start. -/
theorem stop_head_le {s x : Stmt Mark} {rest : List (Stmt Mark)}
    (lined : program.Lined (s :: rest)) (mem : x ∈ rest) : s.span.stop ≤ x.span.start :=
  stop_le_start (lined.2 s (List.mem_cons_self ..)) (lined.2 x (List.mem_cons_of_mem _ mem))
    ((List.pairwise_cons.1 lined.1).1 (.stmt x) (List.mem_map_of_mem mem))

/-- The last statement of a line starts behind all others. -/
theorem stop_le_last {last x : Stmt Mark} {front : List (Stmt Mark)}
    (lined : program.Lined (front ++ [last])) (mem : x ∈ front) :
    x.span.stop ≤ last.span.start := by
  have ordered := lined.1
  rw [List.map_append, List.pairwise_append] at ordered
  exact stop_le_start (lined.2 x (by simp [mem])) (lined.2 last (by simp))
    (ordered.2.2 (.stmt x) (List.mem_map_of_mem mem) (.stmt last) (by simp))

/-- The last statement of a line ends behind all others. -/
theorem stop_le_stop_last {body : List (Stmt Mark)} (lined : program.Lined body)
    {x last : Stmt Mark} (isLast : body.getLast? = some last) (mem : x ∈ body) :
    x.span.stop ≤ last.span.stop := by
  obtain ⟨front, rfl⟩ := List.getLast?_eq_some_iff.1 isLast
  have some := (lined.2 last (by simp)).seated.span.some
  rcases List.mem_append.1 mem with inFront | same
  · exact Nat.le_trans (lined.stop_le_last inFront) (Nat.le_of_lt some)
  · rw [List.mem_singleton.1 same]

/-- From the start of the first to the end of the last statement it goes forward. -/
theorem start_head_le_stop_last {body : List (Stmt Mark)} (lined : program.Lined body)
    {first last : Stmt Mark} (isFirst : body.head? = some first)
    (isLast : body.getLast? = some last) : first.span.start ≤ last.span.stop := by
  have mem := List.mem_of_head? isFirst
  have some := (lined.2 first mem).seated.span.some
  exact Nat.le_trans (Nat.le_of_lt some) (lined.stop_le_stop_last isLast mem)

end Lined

namespace Seated

/-! ## Boundaries of statements -/

section

variable (seated : program.Seated) {s : Stmt Mark}
include seated

theorem gives_stmtText (held : program.Holds (.stmt s)) :
    Gives (fun _ => True) (program.stmtText s) :=
  .of_exists (seated.exists_text_of_edged held.seated.span)

theorem boundary_stmt (held : program.Holds (.stmt s)) :
    Boundary program.source s.span.start ∧ Boundary program.source s.span.stop :=
  ⟨seated.boundary_start held.seated.span, seated.boundary_stop held.seated.span⟩

omit seated in
theorem gives_text (_ : program.Seated) {a b : Nat} (first : Boundary program.source a)
    (second : Boundary program.source b) (le : a ≤ b) :
    Gives (fun _ => True) (program.text ⟨a, b⟩) :=
  .of_exists (exists_text first second le)

omit seated in
/-- The statements of a statement in a list, or the statement itself, stand in a line. -/
theorem lined_statements (held : program.Holds (.stmt s)) : program.Lined s.statements := by
  have alone : program.Lined [s] := ⟨List.pairwise_singleton .., List.forall_mem_singleton.2 held⟩
  cases s with
  | block mark body =>
    refine ⟨held.seated.spread.inOrder rfl, fun x mem => held.child _ ?_⟩
    exact List.mem_map_of_mem mem
  | _ => exact alone

/-! ## An `else` that is not needed -/

theorem gives_unwrapped {whole consequent first last : Stmt Mark}
    (heldFirst : program.Holds (.stmt first)) (heldLast : program.Holds (.stmt last))
    (forward : first.span.start ≤ last.span.stop) :
    Gives (fun _ => True) (program.unwrapped whole consequent first last) :=
  (seated.gives_text (seated.boundary_stmt heldFirst).1 (seated.boundary_stmt heldLast).2
    forward).bind fun _ _ => .ite (fun _ => .pure trivial) fun _ => .pure trivial

omit seated in
/-- The branches of an `if` stand one behind the other. -/
theorem parts_of_branch {mark : Mark} {test : Expr Mark} {consequent alternate : Stmt Mark}
    (held : program.Holds (.stmt (.branch mark test consequent (some alternate)))) :
    program.Holds (.stmt consequent) ∧ program.Holds (.stmt alternate) ∧
      consequent.span.stop ≤ alternate.span.start := by
  have heldConsequent : program.Holds (.stmt consequent) :=
    held.child _ (by simp [Node.children, Stmt.children])
  have heldAlternate : program.Holds (.stmt alternate) :=
    held.child _ (by simp [Node.children, Stmt.children, Stmt.stmtNodes])
  have ordered := held.seated.spread.inOrder rfl
  simp only [Node.children, Stmt.children, Stmt.stmtNodes, Option.toList_some, List.map_cons,
    List.map_nil, List.pairwise_cons] at ordered
  exact ⟨heldConsequent, heldAlternate,
    stop_le_start heldConsequent heldAlternate (ordered.2.1 _ (List.mem_singleton_self _))⟩

theorem gives_unwrapElse? (held : program.Holds (.stmt s)) :
    Gives (fun found => ∀ fix ∈ found, fix.Fits program.source) (program.unwrapElse? s) := by
  unfold unwrapElse?
  split
  · next mark test consequent alternate =>
    obtain ⟨heldConsequent, heldAlternate, before⟩ := parts_of_branch held
    have some := heldAlternate.seated.span.some
    have region : ∀ text, Edit.Fits program.source
        ⟨⟨consequent.span.stop, alternate.span.stop⟩, text⟩ := fun text =>
      ⟨(seated.boundary_stmt heldConsequent).2, (seated.boundary_stmt heldAlternate).2,
        Nat.le_of_lt (Nat.lt_of_le_of_lt before some)⟩
    have lined := lined_statements heldAlternate
    refine .ite (fun _ => .pure (by rintro _ ⟨⟩)) fun _ => ?_
    split
    · next first last isFirst isLast =>
      have heldFirst := lined.2 first (List.mem_of_head? isFirst)
      have heldLast := lined.2 last (List.mem_of_getLast? isLast)
      refine (seated.gives_unwrapped heldFirst heldLast
        (lined.start_head_le_stop_last isFirst isLast)).bind fun text _ => .pure ?_
      rintro _ ⟨⟩
      exact .single (region text)
    · refine .pure ?_
      rintro _ ⟨⟩
      exact .single (region "")
  · exact .pure (by rintro _ ⟨⟩)

end

theorem mem_tokens_of_tokenFrom? {offset : Nat} {token : Token}
    (found : program.tokenFrom? offset = some token) : token ∈ program.tokens :=
  Array.mem_of_getElem? found

variable (seated : program.Seated) {s : Stmt Mark}
include seated

theorem gives_elseReport? (held : program.Holds (.stmt s)) :
    Gives (fun found => ∀ report ∈ found, report.Fits program.source) (program.elseReport? s) := by
  unfold elseReport?
  split
  · next mark test consequent alternate =>
    refine .ite (fun _ => ?_) fun _ => .pure nofun
    refine (seated.gives_unwrapElse? held).bind fun fix fits => .pure ?_
    rintro _ ⟨⟩
    have place : Boundary program.source (program.elseSpan
        (.branch mark test consequent (some alternate)) consequent).start ∧
        Boundary program.source (program.elseSpan
          (.branch mark test consequent (some alternate)) consequent).stop := by
      unfold elseSpan
      split
      · next token found =>
        split
        · exact seated.edges token (mem_tokens_of_tokenFrom? found)
        · exact seated.boundary_stmt held
      · exact seated.boundary_stmt held
    exact ⟨place.1, place.2, fits, by simp⟩
  · exact .pure nofun

/-! ## Guards -/

theorem gives_guardRemains {guard : Stmt Mark} {test : Expr Mark} {next : Nat}
    (heldGuard : program.Holds (.stmt guard)) (heldTest : program.Holds (.expr test))
    (boundary : Boundary program.source next) (before : guard.span.stop ≤ next) :
    Gives (fun _ => True) (program.guardRemains guard test next) :=
  .ite (fun _ => .pure trivial) fun _ => (seated.gives_exprText heldTest).bind fun _ _ =>
    (seated.gives_text (seated.boundary_stmt heldGuard).2 boundary before).bind
      fun _ _ => .pure trivial

theorem gives_repeatedGuard? {guard : Stmt Mark} {rest : List (Stmt Mark)}
    (lined : program.Lined (guard :: rest)) :
    Gives (fun found => ∀ one ∈ found, ∀ report ∈ guardReports one, report.Fits program.source)
      (program.repeatedGuard? guard rest) := by
  unfold repeatedGuard?
  split
  · next mark test consequent next last isNext isLast =>
    refine .ite (fun _ => ?_) fun _ => .pure (by simp)
    have heldGuard := lined.2 _ (List.mem_cons_self ..)
    have heldNext := lined.2 next (List.mem_cons_of_mem _ (List.mem_of_head? isNext))
    have heldLast := lined.2 last (List.mem_cons_of_mem _ (List.mem_of_getLast? isLast))
    have before := lined.stop_head_le (List.mem_of_head? isNext)
    have guardPlace := seated.boundary_stmt heldGuard
    have nextPlace := seated.boundary_stmt heldNext
    have some := heldGuard.seated.span.some
    refine (seated.gives_guardRemains heldGuard (heldGuard.child _ (by
      simp [Node.children, Stmt.children])) nextPlace.1 before).bind fun remains _ => .pure ?_
    rintro _ ⟨⟩
    have removal : Fix.Fits program.source (.single ⟨⟨(Stmt.branch mark test consequent none).span.start,
        next.span.start⟩, remains⟩) :=
      .single ⟨guardPlace.1, nextPlace.1, Nat.le_trans (Nat.le_of_lt some) before⟩
    refine List.forall_mem_cons.2 ⟨⟨guardPlace.1, guardPlace.2, by simp, ?_⟩,
      List.forall_mem_singleton.2 ⟨nextPlace.1, (seated.boundary_stmt heldLast).2, by simp, by simp⟩⟩
    exact List.forall_mem_singleton.2 removal
  · exact .pure (by simp)

theorem gives_repeatedGuards {body : List (Stmt Mark)} (lined : program.Lined body) :
    Gives (fun found => ∀ one ∈ found, ∀ report ∈ guardReports one, report.Fits program.source)
      (program.repeatedGuards body) := by
  induction body with
  | nil => exact .pure (by simp)
  | cons s rest ih =>
    refine (seated.gives_repeatedGuard? lined).bind fun found first =>
      (ih lined.tail).bind fun others fits => .pure fun one mem => ?_
    rcases List.mem_append.1 mem with here | there
    · exact first one (Option.mem_toList.1 here)
    · exact fits one there

theorem gives_bodyReports {body : List (Stmt Mark)} (lined : program.Lined body) :
    Gives (fun reports => ∀ report ∈ reports, report.Fits program.source)
      (program.bodyReports body) :=
  (seated.gives_repeatedGuards lined).bind fun found fits => .pure fun report mem => by
    obtain ⟨one, memOne, inside⟩ := List.mem_flatMap.1 mem
    exact fits one memOne report inside

/-- The statements of every function body stand in a line. -/
theorem lined_functionBodies : ∀ body ∈ program.functionBodies, program.Lined body := by
  intro body mem
  rcases List.mem_append.1 mem with declared | expressed
  · obtain ⟨s, memS, is⟩ := List.mem_filterMap.1 declared
    have held := seated.stmts s (by simpa using memS)
    unfold declaredBody? at is
    split at is
    · cases is
      have ordered := held.seated.spread.inOrder rfl
      exact ⟨(List.pairwise_append.1 ordered).2.1, fun x memX => held.child _
        (List.mem_append_right _ (List.mem_map_of_mem memX))⟩
    · cases is
  · obtain ⟨e, memE, is⟩ := List.mem_filterMap.1 expressed
    have held := seated.exprs e (by simpa using memE)
    unfold expressedBody? at is
    split at is
    · cases is
      have ordered := held.seated.spread.inOrder rfl
      exact ⟨(List.pairwise_append.1 ordered).2.1, fun x memX => held.child _
        (List.mem_append_right _ (List.mem_map_of_mem memX))⟩
    · cases is

/-! ## A common ending -/

/-- What is removed to take the last statement out of a block lies between its braces. -/
structure RemovedFrom (program : Program) (block : Stmt Mark) (removed : Span) : Prop where
  start : Boundary program.source removed.start
  stop : Boundary program.source removed.stop
  forward : removed.start ≤ removed.stop
  lower : block.span.start < removed.start
  upper : removed.stop < block.span.stop

theorem removedFrom_endingRemoval {block ending : Stmt Mark} (held : program.Holds (.stmt block))
    (isBlock : block.isBlock = true) (isLast : block.statements.getLast? = some ending) :
    RemovedFrom program block (endingRemoval block ending) := by
  cases block with
  | block mark body =>
    obtain ⟨braced, inside, _⟩ := held.seated.shaped
    have lined := lined_statements held
    obtain ⟨front, parts⟩ := List.getLast?_eq_some_iff.1 isLast
    obtain rfl : body = front ++ [ending] := parts
    have heldEnding := lined.2 ending (by simp [Stmt.statements])
    have endingInside := inside.inside (.stmt ending) (by simp)
    have endingAround := heldEnding.seated.around
    have apart := braced.apart
    simp only [Node.mark] at endingAround endingInside
    unfold endingRemoval
    split
    · next previous found =>
      have mem : previous ∈ front := by
        simpa [Stmt.statements] using List.mem_of_find?_eq_some found
      have heldPrevious := lined.2 previous (by simp [Stmt.statements, mem])
      have before : previous.mark.span.stop ≤ ending.mark.span.start := lined.stop_le_last mem
      have previousInside := inside.inside (.stmt previous) (by simp [mem])
      have previousAround := heldPrevious.seated.around
      have some := heldEnding.seated.span.some
      have somePrevious := heldPrevious.seated.span.some
      simp only [Node.mark] at previousInside previousAround some somePrevious
      refine ⟨(seated.boundary_stmt heldPrevious).2, (seated.boundary_stmt heldEnding).2, ?_, ?_, ?_⟩
      · exact Nat.le_trans before (Nat.le_of_lt some)
      · show mark.span.start < previous.mark.span.stop
        omega
      · show ending.mark.span.stop < mark.span.stop
        omega
    · obtain ⟨opened, memOpened, _, _, afterOpen⟩ := braced.start
      obtain ⟨closed, memClosed, _, _, beforeClose⟩ := braced.stop
      refine ⟨?_, ?_, ?_, ?_, ?_⟩
      · exact afterOpen ▸ (seated.edges opened (by simpa using memOpened)).2
      · have := (seated.edges closed (by simpa using memClosed)).1
        rwa [show closed.span.start = mark.span.stop - 1 by omega] at this
      · exact inside.le
      · exact Nat.lt_succ_self _
      · show mark.span.stop - 1 < mark.span.stop
        omega
  | _ => cases isBlock

omit seated in
/-- Text can be inserted at a boundary. -/
theorem fits_insert {offset : Nat} (boundary : Boundary program.source offset) (text : String) :
    (Edit.insert offset text).Fits program.source :=
  ⟨boundary, boundary, Nat.le_refl _⟩

/-- The edit puts a text into a block, behind its statements. -/
structure Ends (block : Stmt Mark) (edit : Edit) : Prop where
  insert : edit.span.start = edit.span.stop
  lower : block.span.start < edit.span.start
  behind : ∀ s ∈ block.statements, s.span.stop ≤ edit.span.start
  upper : edit.span.stop < block.span.stop

theorem gives_appendTo {finalizer ending : Stmt Mark} (held : program.Holds (.stmt finalizer))
    (isBlock : finalizer.isBlock = true) (heldEnding : program.Holds (.stmt ending)) :
    Gives (fun edit => edit.Fits program.source ∧ Ends finalizer edit)
      (program.appendTo finalizer ending) := by
  refine (seated.gives_stmtText heldEnding).bind fun text _ => ?_
  cases finalizer with
  | block mark body =>
    obtain ⟨braced, inside, _⟩ := held.seated.shaped
    have apart := braced.apart
    have lined := lined_statements held
    dsimp only
    split
    · next last isLast =>
      have mem := List.mem_of_getLast? isLast
      have heldLast := lined.2 last mem
      have lastInside := inside.inside (.stmt last) (List.mem_map_of_mem mem)
      have around := heldLast.seated.around
      have some := heldLast.seated.span.some
      simp only [Node.mark] at lastInside around some
      have lower : mark.span.start < last.mark.span.stop := by omega
      have upper : last.mark.span.stop < mark.span.stop := by omega
      have behind := fun s => @lined.stop_le_stop_last _ _ s _ isLast
      have fits := fits_insert (seated.boundary_stmt heldLast).2
      exact .ite (fun _ => .pure ⟨fits _, rfl, lower, behind, upper⟩)
        fun _ => .pure ⟨fits _, rfl, lower, behind, upper⟩
    · next none =>
      have behind (place : Nat) : ∀ s ∈ (Stmt.block mark body).statements, s.span.stop ≤ place := by
        rw [List.getLast?_eq_none_iff.1 none]
        nofun
      obtain ⟨opened, memOpened, _, _, afterOpen⟩ := braced.start
      obtain ⟨closed, memClosed, _, _, beforeClose⟩ := braced.stop
      have start : Boundary program.source (mark.span.start + 1) :=
        afterOpen ▸ (seated.edges opened (by simpa using memOpened)).2
      have stop : Boundary program.source (mark.span.stop - 1) := by
        have := (seated.edges closed (by simpa using memClosed)).1
        rwa [show closed.span.start = mark.span.stop - 1 by omega] at this
      refine .ite (fun _ => .pure ⟨fits_insert stop _, rfl, ?_, behind _, ?_⟩)
        fun _ => .pure ⟨fits_insert start _, rfl, Nat.lt_succ_self _, behind _, apart⟩
      · show mark.span.start < mark.span.stop - 1
        omega
      · show mark.span.stop - 1 < mark.span.stop
        omega
  | _ => cases isBlock

theorem gives_newFinalizer {whole handler ending : Stmt Mark}
    (heldWhole : program.Holds (.stmt whole)) (heldHandler : program.Holds (.stmt handler))
    (heldEnding : program.Holds (.stmt ending)) :
    Gives (fun edit => edit.Fits program.source ∧ edit.span = ⟨handler.span.stop, handler.span.stop⟩)
      (program.newFinalizer whole handler ending) := by
  have fits := fits_insert (seated.boundary_stmt heldHandler).2
  exact (seated.gives_stmtText heldEnding).bind fun _ _ =>
    (seated.gives_stmtText heldWhole).bind fun _ _ =>
      .ite (fun _ => .pure ⟨fits _, rfl⟩) fun _ => .pure ⟨fits _, rfl⟩

/-- The first word of a statement is a token of it, or the whole statement. -/
theorem boundary_firstWord (held : program.Holds (.stmt s)) :
    Boundary program.source (program.firstWord s).start ∧
      Boundary program.source (program.firstWord s).stop := by
  unfold firstWord
  split
  · next token found =>
    have mem := List.mem_of_head? found
    simp only [tokensIn, Array.toList_extract] at mem
    exact seated.edges token (Array.mem_def.2 (List.mem_of_mem_drop (List.mem_of_mem_take mem)))
  · exact seated.boundary_stmt held

omit seated in
/-- A common ending ends the block of a `try` and its handler. -/
theorem commonEnding?_eq_some {ending : CommonEnding}
    (found : program.commonEnding? s = some ending) :
    ∃ mark body handler finalizer, s = .attempt mark body (some handler) finalizer ∧
      body.statements.getLast? = some ending.ofBlock ∧
      handler.body.statements.getLast? = some ending.ofHandler ∧
      ending.ofBlock.isMovable = true ∧
      program.sameStmt ending.ofBlock ending.ofHandler = true := by
  unfold commonEnding? at found
  split at found
  · next mark body handler finalizer =>
    split at found
    · next isLast isLastHandler =>
      split at found
      · next checked =>
        cases found
        exact ⟨mark, body, handler, finalizer, rfl, isLast, isLastHandler,
          Bool.and_eq_true_iff.1 checked⟩
      · cases found
    · cases found
  · cases found

omit seated in
/-- The parts of a `try` are blocks that stand one behind the other. -/
theorem parts_of_attempt {mark : Mark} {body : Stmt Mark} {handler : Handler Mark}
    {finalizer : Option (Stmt Mark)}
    (held : program.Holds (.stmt (.attempt mark body (some handler) finalizer))) :
    (program.Holds (.stmt body) ∧ body.isBlock = true) ∧
    (program.Holds (.stmt handler.body) ∧ handler.body.isBlock = true ∧
      body.span.stop ≤ handler.body.span.start) ∧
    ∀ last ∈ finalizer, program.Holds (.stmt last) ∧ last.isBlock = true ∧
      handler.body.span.stop ≤ last.span.start := by
  have blocks := held.seated.shaped
  have memBody : Node.stmt body ∈ (Stmt.attempt mark body (some handler) finalizer).children := by
    simp [Stmt.children]
  have memHandler : Node.stmt handler.body ∈
      (Stmt.attempt mark body (some handler) finalizer).children := by simp [Stmt.children]
  have heldBody : program.Holds (.stmt body) := held.child _ memBody
  have heldHandler : program.Holds (.stmt handler.body) := held.child _ memHandler
  have ordered := held.seated.spread.inOrder rfl
  simp only [Node.children, Stmt.children, Option.toList_some, List.flatMap_cons, List.flatMap_nil,
    List.append_nil, List.cons_append, List.pairwise_cons, List.pairwise_append,
    List.mem_append, List.mem_singleton] at ordered
  refine ⟨⟨heldBody, blocks body memBody⟩, ⟨heldHandler, blocks handler.body memHandler,
    stop_le_start heldBody heldHandler (ordered.1 _ (.inl (.inr rfl)))⟩, fun last is => ?_⟩
  obtain rfl : finalizer = some last := is
  have memLast : Node.stmt last ∈ (Stmt.attempt mark body (some handler) (some last)).children := by
    simp [Stmt.children, Stmt.stmtNodes]
  have heldLast : program.Holds (.stmt last) := held.child _ memLast
  exact ⟨heldLast, blocks last memLast, stop_le_start heldHandler heldLast
    (ordered.2.2.2 _ (.inr rfl) (.stmt last) (by simp [Stmt.stmtNodes]))⟩

/-- The edits that move the ending of a `try`: it goes from both blocks, and into the `finally`. -/
def hoistingEdits (program : Program) (ending : CommonEnding) :
    Stmt Mark → Except Fault (List Edit)
  | .attempt mark body (some handler) finalizer => do
    let insertion ← finalizer.elim (program.newFinalizer
      (.attempt mark body (some handler) finalizer) handler.body ending.ofBlock)
        (program.appendTo · ending.ofBlock)
    return [.remove (endingRemoval body ending.ofBlock),
      .remove (endingRemoval handler.body ending.ofHandler), insertion]
  | _ => return []

/-- **Moving a common ending is never refused**: what is removed from the block comes before what
is removed from the handler, and the place where the ending goes comes behind both. -/
theorem gives_hoistEnding? (held : program.Holds (.stmt s)) {ending : CommonEnding}
    (found : program.commonEnding? s = some ending) :
    Gives (fun found => ∀ fix ∈ found, hoistingEdits program ending s = .ok fix.edits ∧
      fix.Fits program.source) (program.hoistEnding? s ending) := by
  obtain ⟨mark, body, handler, finalizer, rfl, isLast, isLastHandler, -⟩ :=
    commonEnding?_eq_some found
  obtain ⟨⟨heldBody, blockBody⟩, ⟨heldHandler, blockHandler, bodyFirst⟩, last⟩ :=
    parts_of_attempt held
  have heldEnding := (lined_statements heldBody).2 ending.ofBlock (List.mem_of_getLast? isLast)
  obtain ⟨start, stop, forward, lower, upper⟩ :=
    seated.removedFrom_endingRemoval heldBody blockBody isLast
  obtain ⟨start', stop', forward', lower', upper'⟩ :=
    seated.removedFrom_endingRemoval heldHandler blockHandler isLastHandler
  obtain ⟨insertion, is, fits, behind⟩ : Gives (fun edit => edit.Fits program.source ∧
      handler.body.span.stop ≤ edit.span.start) (finalizer.elim (program.newFinalizer
        (.attempt mark body (some handler) finalizer) handler.body ending.ofBlock)
          (program.appendTo · ending.ofBlock)) := by
    cases finalizer with
    | none =>
      exact (seated.gives_newFinalizer held heldHandler heldEnding).imp fun edit fits =>
        ⟨fits.1, by rw [fits.2]⟩
    | some finalizer =>
      obtain ⟨heldLast, blockLast, behind⟩ := last finalizer rfl
      exact (seated.gives_appendTo heldLast blockLast heldEnding).imp fun edit fits =>
        ⟨fits.1, Nat.le_trans behind (Nat.le_of_lt fits.2.lower)⟩
  obtain ⟨fix, edits, fits⟩ : ∃ fix : Fix, fix.edits =
      [.remove (endingRemoval body ending.ofBlock),
        .remove (endingRemoval handler.body ending.ofHandler), insertion] ∧
      fix.Fits program.source := by
    refine ⟨⟨_⟩, rfl, List.forall_mem_cons.2 ⟨⟨start, stop, forward⟩, List.forall_mem_cons.2
      ⟨⟨start', stop', forward'⟩, List.forall_mem_singleton.2 fits⟩⟩, ?_⟩
    simp only [List.pairwise_cons, List.forall_mem_cons, Edit.remove]
    grind
  have made := congrArg (· >>= fun fix => pure (some fix)) (edits ▸ fits.ofEdits_eq)
  refine .ite (fun _ => .pure nofun) fun _ => .ite (fun _ => .pure nofun) fun _ =>
    ⟨some fix, ?_, ?_⟩
  · cases finalizer <;> exact (congrArg (· >>= _) is).trans made
  · rintro _ ⟨⟩
    rw [edits]
    exact ⟨congrArg (· >>= _) is, fits⟩

theorem gives_endingReport? (held : program.Holds (.stmt s)) :
    Gives (fun found => ∀ report ∈ found, report.Fits program.source)
      (program.endingReport? s) := by
  unfold endingReport?
  split
  · next ending found =>
    obtain ⟨mark, body, handler, finalizer, rfl, isLast, -⟩ := commonEnding?_eq_some found
    have heldEnding := (lined_statements (parts_of_attempt held).1.1).2 ending.ofBlock
      (List.mem_of_getLast? isLast)
    refine (seated.gives_stmtText heldEnding).bind fun text _ =>
      (seated.gives_hoistEnding? held found).bind fun fix fits => .pure ?_
    rintro _ ⟨⟩
    have place := seated.boundary_firstWord held
    exact ⟨place.1, place.2, fun fix mem => (fits fix mem).2, by simp⟩
  · exact .pure nofun

end Seated

end TidyScript.Program
