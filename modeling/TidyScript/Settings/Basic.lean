import TidyScript.Rule.Basic

/-!
# Settings

The settings of a run switch rules on and off and bound the number of fixing rounds.
Usually all rules are on and there are at most ten rounds.
-/

namespace TidyScript

/-- Which rules are switched on. -/
structure RuleSet where
  deMorgan : Bool := true
  simplifyLogic : Bool := true
  noElseReturn : Bool := true
  noDuplicateReturn : Bool := true
  tryCatchTail : Bool := true
deriving DecidableEq, Repr

/-- Is a rule switched on? -/
def RuleSet.enables (rules : RuleSet) : Rule → Bool
  | .deMorgan => rules.deMorgan
  | .simplifyLogic => rules.simplifyLogic
  | .noElseReturn => rules.noElseReturn
  | .noDuplicateReturn => rules.noDuplicateReturn
  | .tryCatchTail => rules.tryCatchTail

/-- The settings of a run. -/
structure Settings where
  rules : RuleSet := {}
  /-- The most rounds of fixing. -/
  maxFixPasses : Nat := 10
deriving DecidableEq, Repr

end TidyScript
