import TidyScript.Edit.Basic

/-!
# Rules and reports

There are five rules. A report of a rule names what was found and where, and may carry
a fix, which can be made without asking, and suggestions, which are only offered.
-/

namespace TidyScript

/-- The rules, in the order in which their reports are listed at one place. -/
inductive Rule where
  /-- Negations of connectives and comparisons. -/
  | deMorgan
  /-- Logical expressions that a law shortens. -/
  | simplifyLogic
  /-- An `else` behind a branch that leaves. -/
  | noElseReturn
  /-- Guards that repeat what follows them. -/
  | noDuplicateReturn
  /-- A statement that ends a `try` and its handler. -/
  | tryCatchTail
deriving DecidableEq, Repr

namespace Rule

/-- All rules. -/
def all : List Rule :=
  [deMorgan, simplifyLogic, noElseReturn, noDuplicateReturn, tryCatchTail]

/-- The name of a rule. -/
def name : Rule → String
  | deMorgan => "de-morgan"
  | simplifyLogic => "simplify-logic"
  | noElseReturn => "no-else-return"
  | noDuplicateReturn => "no-duplicate-return"
  | tryCatchTail => "try-catch-tail"

/-- The place of a rule in the order. -/
def rank : Rule → Nat
  | deMorgan => 0
  | simplifyLogic => 1
  | noElseReturn => 2
  | noDuplicateReturn => 3
  | tryCatchTail => 4

/-- Does the rule change expressions, so that the change can be checked by
evaluation? -/
def isLogical : Rule → Bool
  | deMorgan => true
  | simplifyLogic => true
  | _ => false

end Rule

/-- Something found by a rule. -/
structure Report where
  rule : Rule
  /-- What was found, within the rule. -/
  id : String
  message : String
  /-- The place it was found at. -/
  span : Span
  /-- A fix that can be made without asking. -/
  fix : Option Fix := none
  /-- Fixes that are offered only. -/
  suggestions : List Fix := []
deriving DecidableEq, Repr

namespace Report

/-- Reports are listed by where they start, then by rule. -/
def le (a b : Report) : Bool :=
  a.span.start < b.span.start || (a.span.start = b.span.start && a.rule.rank ≤ b.rule.rank)

/-- Reports in the order in which they are listed. -/
def sort (reports : List Report) : List Report :=
  reports.mergeSort le

end Report

end TidyScript
