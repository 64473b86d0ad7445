import TidyScript.Edit.Basic
import TidyScript.Flow.Moving

/-!
# An `else` that is not needed

When the first branch of an `if` always leaves, the statements of its `else` may as
well follow the `if`. The edit takes them out of their braces and puts them right
behind the first branch: on the same line if they stood there, otherwise on new lines
with the indentation of the `if`.

The change is declined where it is not safe: the `if` has to stand in a list of
statements, the text that is replaced must not hold a comment, and the statements must
not declare names that are bound to their block.
-/

namespace TidyScript.Program

/-- The text of the statements from `first` to `last`, placed behind the first branch
of an `if`. -/
def unwrapped (program : Program) (whole consequent first last : Stmt Mark) :
    Except Fault String := do
  let text ← program.text ⟨first.span.start, last.span.stop⟩
  let moved := program.separated consequent text
  if program.sameLine consequent.span.stop first.span.start && !moved.toList.contains '\n' then
    return " " ++ moved
  else
    let indent := program.indentAt whole.span.start
    let old := program.indentAt first.span.start
    return "\n" ++ indent ++ Text.reindent moved old indent

/-- Removes the `else` of an `if` and keeps the statements under it. -/
def unwrapElse? (program : Program) (whole : Stmt Mark) : Except Fault (Option Fix) :=
  match whole with
  | .branch _ _ consequent (some alternate) => do
    let region : Span := ⟨consequent.span.stop, alternate.span.stop⟩
    let moved := alternate.statements
    if !program.inStatementList whole || program.hasCommentsIn region ||
        moved.any Stmt.isScoped then
      return none
    match moved.head?, moved.getLast? with
    | some first, some last =>
      return some (.single ⟨region, ← program.unwrapped whole consequent first last⟩)
    | _, _ => return some (.single (.remove region))
  | _ => return none

end TidyScript.Program
