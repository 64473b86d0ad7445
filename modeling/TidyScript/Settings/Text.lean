import TidyScript.Json.Basic
import TidyScript.Json.Reader
import TidyScript.Settings.Basic

/-!
# Settings as text

Settings are kept in JSON: an object with the switches of the rules and the bound on
fixing rounds. Every field may be left out and then has its usual value, and no other
field is allowed. A list of the values in order stands for an object.
-/

namespace TidyScript

open Json (Reader Defect)

namespace RuleSet

/-- The switches by name, each with a reader that sets it. -/
def fields : Reader.Fields RuleSet :=
  [(Rule.deMorgan.name, fun rules => do return { rules with deMorgan := ← Reader.boolean }),
   (Rule.simplifyLogic.name,
    fun rules => do return { rules with simplifyLogic := ← Reader.boolean }),
   (Rule.noElseReturn.name,
    fun rules => do return { rules with noElseReturn := ← Reader.boolean }),
   (Rule.noDuplicateReturn.name,
    fun rules => do return { rules with noDuplicateReturn := ← Reader.boolean }),
   (Rule.tryCatchTail.name,
    fun rules => do return { rules with tryCatchTail := ← Reader.boolean })]

/-- Takes the switches of the rules. -/
def reader : Reader RuleSet :=
  Reader.record fields {}

/-- The switches of the rules as JSON, in the order of the rules. -/
def toJson (rules : RuleSet) : Json :=
  .object (Rule.all.map fun rule => (rule.name, .boolean (rules.enables rule)))

end RuleSet

namespace Settings

/-- The name of the field with the switches. -/
def rulesField : String := "rules"

/-- The name of the field with the bound on rounds. -/
def passesField : String := "max-fix-passes"

/-- The settings by name, each with a reader that sets it. -/
def fields : Reader.Fields Settings :=
  [(rulesField, fun settings => do return { settings with rules := ← RuleSet.reader }),
   (passesField, fun settings => do return { settings with maxFixPasses := ← Reader.natural })]

/-- The settings that a text writes. -/
def ofText (text : String) : Except Defect Settings :=
  (Reader.record fields {}).run text

/-- The settings as JSON. -/
def toJson (settings : Settings) : Json :=
  .object [(rulesField, settings.rules.toJson), (passesField, .number settings.maxFixPasses)]

end Settings

end TidyScript
