import TidyScript.Proofs.Edit.Independence
import TidyScript.Proofs.Rule.Termination

/-!
# One fix by itself

A fix of the rules on expressions puts a new text in the place of a node. In a plain expression,
parentheses keep the new text together and operators around it stay where they are, so that its
node is exchanged and nothing else.
-/

namespace TidyScript

/-- **A fix of an expression exchanges one node.** Let a source be a single statement of a plain
expression, and let words stand apart in it if negations are reported too. Then it can be linted,
and every report carries a fix of one edit, which lies where the report does. Made by itself, the
fix gives another source that is a single expression statement: the tree has the form of the old
one with the node of the report exchanged for what the text of the edit reads as. -/
theorem Program.edited_of_mem_lint {source : String} {program : Program} {mark : Mark}
    {e : Expr Mark} (read : parse source = .ok program)
    (body : program.body = [.expression mark e]) (plain : e.isPlain = true) {negating : Bool}
    (airy : negating = true → program.isAiry = true) :
    ∃ reports, program.lint (.onlyLogic negating) = .ok reports ∧ ∀ report ∈ reports,
      ∃ edit, report.fix = some (.single edit) ∧ edit.span = report.span ∧
        ∃ output program' mark' e', (Fix.single edit).apply source = .ok output ∧
          parse output = .ok program' ∧ program'.body = [.expression mark' e'] ∧
            e.Edited [edit] e' := by
  obtain ⟨s, sound, rfl, isRead⟩ := Sentence.of_parse read body plain
  obtain rfl := isRead.node_eq body
  obtain ⟨reports, listed, reported⟩ := Sentence.gives_lint sound isRead
  refine ⟨reports, listed, fun report mem => ?_⟩
  obtain ⟨node, here, edit, carried, changes, place⟩ := reported report mem
  obtain ⟨φ, amended, woven, edited⟩ := Sentence.exists_amended sound isRead
    (fun asked => Sentence.airy_of_isAiry isRead (airy asked)) (List.pairwise_singleton _ edit)
    (List.forall_mem_singleton.2 ⟨node, here, changes⟩)
  obtain ⟨program', read', isRead'⟩ := (sound.exchange amended.neat.legible).parse
  obtain ⟨mark', body', _⟩ := isRead'.body
  refine ⟨edit, carried, changes.span_eq.trans place.symm, _, program', mark', φ.node 0 0, ?_, read',
    body', edited⟩
  have walk := woven.before (s.ending.flatMap Piece.chars ++ s.final)
  rw [← Sentence.toList_source, ← Sentence.toList_source ⟨φ, s.ending, s.final⟩] at walk
  exact (Fix.apply_eq walk).trans (congrArg Except.ok (String.ofList_toList ..))

/-- A negation under a connective, with an operator in front of it and a word behind. -/
theorem Program.edited_of_mem_lint_nested :
    ∃ (program : Program) (mark : Mark) (e : Expr Mark) (report : Report),
      parse "p || -!(a < b) in c" = .ok program ∧
        program.body = [.expression mark e] ∧ e.isPlain = true ∧ program.isAiry = true ∧
          ∃ reports, program.lint (.onlyLogic true) = .ok reports ∧ report ∈ reports ∧
            ∃ edit, report.fix = some (.single edit) ∧ edit.span = report.span ∧
              ∃ output program' mark' e',
                (Fix.single edit).apply "p || -!(a < b) in c" = .ok output ∧
                  parse output = .ok program' ∧ program'.body = [.expression mark' e'] ∧
                    e.Edited [edit] e' := by
  have checked : (parse "p || -!(a < b) in c").toOption.any (fun program =>
      program.isAiry && program.soleExpression?.any Expr.isPlain &&
        (program.lint (.onlyLogic true)).toOption.any fun reports => !reports.isEmpty) = true := by
    decide +kernel
  obtain ⟨program, read, checked⟩ := exists_ok_of_any checked
  obtain ⟨checked, some⟩ := Bool.and_eq_true_iff.1 checked
  obtain ⟨airy, shape⟩ := Bool.and_eq_true_iff.1 checked
  obtain ⟨e, sole, plain⟩ := (Option.any_eq_true ..).1 shape
  obtain ⟨mark, body⟩ := soleExpression?_eq_some.1 sole
  obtain ⟨reports, listed, each⟩ := edited_of_mem_lint read body plain fun _ => airy
  rw [listed] at some
  cases reports with
  | nil => cases some
  | cons report others =>
    exact ⟨program, mark, e, report, read, body, plain, airy, _, listed, .head _,
      each report (.head _)⟩

end TidyScript
