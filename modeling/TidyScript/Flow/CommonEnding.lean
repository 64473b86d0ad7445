import TidyScript.Edit.Basic
import TidyScript.Flow.Moving
import TidyScript.Logic.Equivalence

/-!
# A statement that ends both a `try` block and its handler

When the block of a `try` and its handler end in the same statement, the statement can
move to `finally`, once. Jumps and declarations are not moved, since they would act
differently there, and neither are hidden and empty statements.

The fix removes the statement from both blocks, with the empty statements right before
it, and appends it to the `finally`, which is made if it is not there. It is declined
when the statement uses a name that the handler binds, and when a comment stands in
the text that is removed.
-/

namespace TidyScript

/-- The same statement at the end of a `try` block and at the end of its handler. -/
structure CommonEnding where
  ofBlock : Stmt Mark
  ofHandler : Stmt Mark

/-- Can the statement be moved to a `finally`? -/
def Stmt.isMovable {α : Type} : Stmt α → Bool
  | .returning _ _ => false
  | .throwing _ _ => false
  | .breaking _ _ => false
  | .continuing _ _ => false
  | .declaration _ _ _ => false
  | .function _ _ _ _ => false
  | .hidden _ => false
  | .empty _ => false
  | _ => true

namespace Program

/-- The statement that ends both the block of a `try` and its handler. -/
def commonEnding? (program : Program) : Stmt Mark → Option CommonEnding
  | .attempt _ body (some handler) _ =>
    match body.statements.getLast?, handler.body.statements.getLast? with
    | some ofBlock, some ofHandler =>
      if ofBlock.isMovable && program.sameStmt ofBlock ofHandler then some ⟨ofBlock, ofHandler⟩
      else none
    | _, _ => none
  | _ => none

/-! ## What is removed -/

/-- The text to remove so that a block loses its last statement: all that stands behind
the statement before it, empty statements not counted, or the whole inside of the
block. -/
def endingRemoval (block ending : Stmt Mark) : Span :=
  match block.statements.reverse.tail.find? fun s => !s.isEmpty with
  | some previous => ⟨previous.span.stop, ending.span.stop⟩
  | none => ⟨block.span.start + 1, block.span.stop - 1⟩

/-- The names written inside a span. -/
def namesIn (program : Program) (span : Span) : List String :=
  (program.tokensIn span).filterMap fun token =>
    if token.kind = .identifier then some token.text else none

/-- Does a statement use a name that is bound by the parameter of a handler? -/
def usesParam (program : Program) (handler : Handler Mark) (s : Stmt Mark) : Bool :=
  match handler.param with
  | some param =>
    let bound := program.namesIn param.span
    (program.namesIn s.span).any fun name => bound.contains name
  | none => false

/-! ## What is inserted -/

/-- The insertion that appends a statement to a `finally`. -/
def appendTo (program : Program) (finalizer ending : Stmt Mark) : Except Fault Edit := do
  let text ← program.stmtText ending
  let old := program.indentAt ending.span.start
  match finalizer.statements.getLast? with
  | some last =>
    let moved := program.separated last text
    if program.sameLine last.span.start finalizer.span.stop then
      return .insert last.span.stop (" " ++ moved)
    else
      let indent := program.indentAt last.span.start
      return .insert last.span.stop ("\n" ++ indent ++ Text.reindent moved old indent)
  | none =>
    if program.sameLine finalizer.span.start finalizer.span.stop then
      return .insert (finalizer.span.stop - 1) (" " ++ text ++ " ")
    else return .insert (finalizer.span.start + 1) ("\n" ++ old ++ text)

/-- The insertion that makes a new `finally` behind a handler. It takes several lines
if the `try` does. -/
def newFinalizer (program : Program) (whole handler ending : Stmt Mark) :
    Except Fault Edit := do
  let text ← program.stmtText ending
  let wholeText ← program.stmtText whole
  if wholeText.toList.contains '\n' then
    let inner := program.indentAt ending.span.start
    let outer := program.indentAt whole.span.start
    return .insert handler.span.stop (" finally \x7b\n" ++ inner ++ text ++ "\n" ++ outer ++ "\x7d")
  else return .insert handler.span.stop (" finally \x7b " ++ text ++ " \x7d")

/-- Moves the common ending of a `try` to its `finally`. -/
def hoistEnding? (program : Program) (whole : Stmt Mark) (ending : CommonEnding) :
    Except Fault (Option Fix) :=
  match whole with
  | .attempt _ body (some handler) finalizer => do
    if program.usesParam handler ending.ofHandler then return none
    let fromBlock := endingRemoval body ending.ofBlock
    let fromHandler := endingRemoval handler.body ending.ofHandler
    if program.hasCommentsIn fromBlock || program.hasCommentsIn fromHandler then return none
    let insertion ←
      match finalizer with
      | some finalizer => program.appendTo finalizer ending.ofBlock
      | none => program.newFinalizer whole handler.body ending.ofBlock
    return some (← Fix.ofEdits [.remove fromBlock, .remove fromHandler, insertion])
  | _ => return none

end Program

end TidyScript
