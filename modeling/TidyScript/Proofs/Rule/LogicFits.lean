import TidyScript.Flow.Leaving
import TidyScript.Proofs.Edit.Fits
import TidyScript.Proofs.Program.Seat
import TidyScript.Rule.Logic

/-!
# The rules on expressions always answer

On a program that stands on its source, negating an expression and looking for a law that shortens
it only cut out texts of nodes, so they are never refused. The reports of both rules fit the
source: they are placed at boundaries and their fixes replace the text of a node.
-/

namespace TidyScript

open Text (Boundary)

/-- The report is placed between boundaries of the source, and its fixes fit the source. -/
structure Report.Fits (source : String) (report : Report) : Prop where
  start : Boundary source report.span.start
  stop : Boundary source report.span.stop
  fix : ∀ fix ∈ report.fix, fix.Fits source
  suggestions : ∀ fix ∈ report.suggestions, fix.Fits source

namespace Program

variable {program : Program}

/-- The node and all nodes below it are placed on the tokens of the program. -/
abbrev Holds (program : Program) (node : Node Mark) : Prop :=
  node.Placed program.tokens.toList program.census

theorem Holds.below {e child : Expr Mark} (held : program.Holds (.expr e))
    (mem : .expr child ∈ e.children) : program.Holds (.expr child) :=
  held.child _ mem

namespace Seated

/-! ## Texts of expressions -/

section

variable (seated : program.Seated) {e : Expr Mark}
include seated

theorem gives_exprText (held : program.Holds (.expr e)) :
    Gives (fun _ => True) (program.exprText e) :=
  .of_exists (seated.exists_text_of_edged held.seated.span)

theorem gives_exprSource (held : program.Holds (.expr e)) :
    Gives (fun _ => True) (program.exprSource e) :=
  .of_exists (seated.exists_text_of_edged held.seated.outer)

theorem gives_fragment (held : program.Holds (.expr e)) :
    Gives (fun _ => True) (program.fragment e) :=
  (seated.gives_exprSource held).bind fun _ _ => .pure trivial

theorem gives_operand (held : program.Holds (.expr e)) (parent : Precedence) (right : Bool) :
    Gives (fun _ => True) (program.operand e parent right) :=
  (seated.gives_fragment held).bind fun _ _ => .pure trivial

theorem gives_testOperand (held : program.Holds (.expr e)) :
    Gives (fun _ => True) (program.testOperand e) :=
  (seated.gives_fragment held).bind fun _ _ => .pure trivial

theorem gives_joined {a b : Expr Mark} (heldA : program.Holds (.expr a))
    (heldB : program.Holds (.expr b)) (op : LogicalOp) :
    Gives (fun _ => True) (program.joined op a b) :=
  (seated.gives_operand heldA _ _).bind fun _ _ =>
    (seated.gives_operand heldB _ _).bind fun _ _ => .pure trivial

/-! ## Negation -/

/-- **Every expression has a negation.** -/
theorem gives_negation (e : Expr Mark) (held : program.Holds (.expr e)) :
    Gives (fun _ => True) (program.negation e) := by
  have wrapped : ∀ e, program.Holds (.expr e) →
      Gives (fun _ => True) (program.wrappedNegation e) :=
    fun e held => (seated.gives_exprText held).bind fun _ _ => .pure trivial
  fun_induction program.negation e with
  | case1 mark argument => exact seated.gives_fragment (held.below (by simp [Expr.children]))
  | case2 mark op left right complement found =>
    exact (seated.gives_exprSource (held.below (by simp [Expr.children]))).bind fun _ _ =>
      (seated.gives_exprSource (held.below (by simp [Expr.children]))).bind fun _ _ => .pure trivial
  | case3 => exact wrapped _ held
  | case4 mark op left right dual found ihLeft ihRight =>
    exact (ihLeft (held.below (by simp [Expr.children]))).bind fun _ _ =>
      (ihRight (held.below (by simp [Expr.children]))).bind fun _ _ => .pure trivial
  | case5 => exact wrapped _ held
  | case6 => exact wrapped _ held

/-! ## Laws -/

theorem gives_absorption? {left right : Expr Mark} (op : LogicalOp)
    (heldLeft : program.Holds (.expr left)) :
    Gives (fun _ => True) (program.absorption? op left right) := by
  unfold absorption?
  split
  · exact .ite (fun _ => (seated.gives_fragment heldLeft).bind fun _ _ => .pure trivial)
      fun _ => .pure trivial
  · exact .pure trivial

theorem gives_distribution? {left right : Expr Mark} (outer : LogicalOp)
    (heldLeft : program.Holds (.expr left)) (heldRight : program.Holds (.expr right)) :
    Gives (fun _ => True) (program.distribution? outer left right) := by
  unfold distribution?
  split
  · next op x a _ other y b =>
    refine .ite (fun _ => ?_) fun _ => .pure trivial
    have heldX : program.Holds (.expr x) := heldLeft.below (by simp [Expr.children])
    have heldA : program.Holds (.expr a) := heldLeft.below (by simp [Expr.children])
    have heldB : program.Holds (.expr b) := heldRight.below (by simp [Expr.children])
    exact (seated.gives_joined heldA heldB outer).bind fun _ _ =>
      (seated.gives_operand heldX _ _).bind fun _ _ => .pure trivial
  · exact .pure trivial

theorem gives_foldWith (op : LogicalOp) {fallback test₁ value₁ test₂ value₂ : Expr Mark}
    (heldFallback : program.Holds (.expr fallback)) (heldTest₁ : program.Holds (.expr test₁))
    (heldValue₁ : program.Holds (.expr value₁)) (heldTest₂ : program.Holds (.expr test₂))
    (heldValue₂ : program.Holds (.expr value₂)) :
    Gives (fun _ => True) (program.foldWith op fallback test₁ value₁ test₂ value₂) := by
  have branch : ∀ {e}, program.Holds (.expr e) → Gives (fun _ => True) (program.branchOperand e) :=
    fun held => seated.gives_operand held _ _
  refine .ite (fun _ => ?_) fun _ => .ite (fun _ => .ite (fun _ => ?_) fun _ => .pure trivial)
    fun _ => .ite (fun _ => .ite (fun _ => ?_) fun _ => .pure trivial)
      fun _ => .ite (fun _ => ?_) fun _ => .pure trivial
  · exact (seated.gives_testOperand heldTest₁).bind fun _ _ =>
      (seated.gives_joined heldValue₁ heldValue₂ op).bind fun _ _ =>
        (seated.gives_exprSource heldFallback).bind fun _ _ => .pure trivial
  · exact (seated.gives_testOperand heldTest₁).bind fun _ _ =>
      (seated.gives_joined heldValue₁ heldFallback op).bind fun _ _ =>
        (branch heldValue₂).bind fun _ _ => .pure trivial
  · exact (seated.gives_testOperand heldTest₂).bind fun _ _ =>
      (seated.gives_joined heldValue₁ heldFallback op).bind fun _ _ =>
        (branch heldValue₂).bind fun _ _ => .pure trivial
  · exact (seated.gives_operand heldTest₁ _ _).bind fun _ _ =>
      (seated.gives_operand heldValue₁ _ _).bind fun _ _ =>
        (seated.gives_testOperand heldTest₂).bind fun _ _ =>
          (branch heldValue₂).bind fun _ _ =>
            (seated.gives_exprSource heldFallback).bind fun _ _ =>
              (branch heldValue₁).bind fun _ _ => .pure trivial

theorem gives_ternaryFold? {left right : Expr Mark} (op : LogicalOp)
    (heldLeft : program.Holds (.expr left)) (heldRight : program.Holds (.expr right)) :
    Gives (fun _ => True) (program.ternaryFold? op left right) := by
  unfold ternaryFold?
  split
  · refine .ite (fun _ => ?_) fun _ => .pure trivial
    exact seated.gives_foldWith op (heldLeft.below (by simp [Expr.children]))
      (heldLeft.below (by simp [Expr.children])) (heldLeft.below (by simp [Expr.children]))
      (heldRight.below (by simp [Expr.children])) (heldRight.below (by simp [Expr.children]))
  · exact .pure trivial

/-- **Looking for a shorter form of an expression is never refused.** -/
theorem gives_shorten? (held : program.Holds (.expr e)) :
    Gives (fun _ => True) (program.shorten? e) := by
  unfold shorten?
  split
  · next op left right =>
    have heldLeft : program.Holds (.expr left) := held.below (by simp [Expr.children])
    have heldRight : program.Holds (.expr right) := held.below (by simp [Expr.children])
    split
    · exact .pure trivial
    · refine (seated.gives_absorption? op heldLeft).bind fun found _ => ?_
      cases found with
      | some _ => exact .pure trivial
      | none =>
        refine (seated.gives_distribution? op heldLeft heldRight).bind fun found _ => ?_
        cases found with
        | some _ => exact .pure trivial
        | none => exact seated.gives_ternaryFold? op heldLeft heldRight
  · exact .pure trivial

/-! ## Reports -/

/-- The text of an expression is replaced from boundary to boundary. -/
theorem fits_replace (held : program.Holds (.expr e)) (new : Fragment) :
    (program.replace e new).Fits program.source :=
  .single ⟨seated.boundary_start held.seated.span, seated.boundary_stop held.seated.span,
    Nat.le_of_lt held.seated.span.some⟩

/-- A report on an expression that offers to replace it. -/
theorem fits_report (held : program.Holds (.expr e)) (rule : Rule) (id message : String)
    (new : Fragment) :
    Report.Fits program.source
      { rule, id, message, span := e.span, fix := some (program.replace e new) } := by
  refine ⟨seated.boundary_start held.seated.span, seated.boundary_stop held.seated.span, ?_,
    by simp⟩
  rintro _ ⟨⟩
  exact seated.fits_replace held new

theorem gives_negationReport? (held : program.Holds (.expr e)) :
    Gives (fun found => ∀ report ∈ found, report.Fits program.source)
      (program.negationReport? e) := by
  unfold negationReport?
  split
  · next mark argument =>
    split
    · refine .ite (fun _ => ?_) fun _ => .pure nofun
      refine (seated.gives_negation argument (held.below (by simp [Expr.children]))).bind
        fun new _ => .pure ?_
      rintro _ ⟨⟩
      exact seated.fits_report held _ _ _ new
    · exact .pure nofun
  · exact .pure nofun

end

/-- A fix that fits may still change more than its expression. Behind a word that stands without a
blank, the new text runs into it: here the fix leaves `returna !== b`, and nothing returns. -/
theorem negationReport?_behind_word :
    ∃ (program program' : Program) (e : Expr Mark) (report : Report) (fix : Fix) (output : String),
      Program.parse "function f()\x7breturn!(a===b)\x7d" = .ok program ∧ e ∈ program.exprs.toList ∧
        program.negationReport? e = .ok (some report) ∧ report.fix = some fix ∧
          fix.apply program.source = .ok output ∧ Program.parse output = .ok program' ∧
            program.stmts.toList.any Stmt.leaves = true ∧
              program'.stmts.toList.any Stmt.leaves = false := by
  have checked : (Program.parse "function f()\x7breturn!(a===b)\x7d").toOption.any (fun program =>
      program.stmts.toList.any Stmt.leaves && program.exprs.toList.any fun e =>
        (program.negationReport? e).toOption.any fun found => found.any fun report =>
          report.fix.any fun fix => (fix.apply program.source).toOption.any fun output =>
            (Program.parse output).toOption.any fun program' =>
              !program'.stmts.toList.any Stmt.leaves) = true := by decide +kernel
  obtain ⟨program, read, checked⟩ := exists_ok_of_any checked
  obtain ⟨leaves, checked⟩ := Bool.and_eq_true_iff.1 checked
  obtain ⟨e, mem, checked⟩ := List.any_eq_true.1 checked
  obtain ⟨found, reported, checked⟩ := exists_ok_of_any checked
  obtain ⟨report, rfl, carries⟩ := (Option.any_eq_true ..).1 checked
  obtain ⟨fix, carried, checked⟩ := (Option.any_eq_true ..).1 carries
  obtain ⟨output, made, checked⟩ := exists_ok_of_any checked
  obtain ⟨program', readAgain, stays⟩ := exists_ok_of_any checked
  exact ⟨program, program', e, report, fix, output, read, mem,
    reported, carried, made, readAgain,
    leaves, by simpa using stays⟩

theorem gives_shorteningReport? (seated : program.Seated) {e : Expr Mark}
    (held : program.Holds (.expr e)) :
    Gives (fun found => ∀ report ∈ found, report.Fits program.source)
      (program.shorteningReport? e) := by
  refine (seated.gives_shorten? held).bind fun found _ => ?_
  cases found with
  | none => exact .pure nofun
  | some shortening =>
    refine .pure ?_
    rintro _ ⟨⟩
    exact seated.fits_report held _ _ _ shortening.replacement

end Seated

end Program

end TidyScript
