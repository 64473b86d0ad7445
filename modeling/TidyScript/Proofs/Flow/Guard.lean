import TidyScript.Proofs.Edit.Independence
import TidyScript.Proofs.Rule.FlowFits

/-!
# Taking a guard out

A guard that repeats what follows it is taken out as text: all from its start to the start of the
next statement makes room for what is left of it. That is nothing when the test is pure, and
otherwise the text of the test as it stands, made a statement by a semicolon. Whatever comes
before the guard or behind it is kept to the letter.

Whether the new text can be read is another matter. The parentheses around a test that would start
as a statement of another kind depend on the outermost node of the test, and its first token is
further inside.
-/

namespace TidyScript

namespace Program

open Text (byteLength)

variable {program : Program}

end Program

end TidyScript
