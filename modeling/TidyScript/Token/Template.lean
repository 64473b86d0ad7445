import TidyScript.Token.Quoted
import TidyScript.Text.Cut

/-!
# Template literals

A template literal runs between two backticks. Inside, a backslash protects the
next character, and a dollar sign with an opening brace starts a substitution,
which ends at the matching closing brace. A substitution can hold strings and
further templates, to any depth.

The scanner keeps one frame for each template that is open. The frame says where
the template started and how many braces of its substitution are open; with none
open, the scanner is in the text of the template.
-/

namespace TidyScript.Token

/-- An open template: its first byte, and the open braces of its substitution. -/
structure TemplateFrame where
  start : Nat
  depth : Nat

/-- The rest of a template literal: `top` is the innermost open template, `outer`
the templates around it, and `offset` the byte offset of `cs`. -/
def templateTail (top : TemplateFrame) (outer : List TemplateFrame) (offset : Nat)
    (cs : List Char) : Scan Unit :=
  match cs with
  | [] => .fail 0 (.unterminatedTemplate top.start)
  | c :: rest =>
    let next := offset + c.utf8Size
    if top.depth = 0 then
      if c = '\x60' then
        match outer with
        | [] => .done 1 ()
        | frame :: frames => (templateTail frame frames next rest).after 1
      else if c = '\\' then
        match rest with
        | [] => .fail 1 (.unterminatedTemplate top.start)
        | d :: behind => (templateTail top outer (next + d.utf8Size) behind).after 2
      else if c = '$' && rest.head? = some '\x7b' then
        (templateTail ⟨top.start, 1⟩ outer (next + 1) rest.tail).after 2
      else (templateTail top outer next rest).after 1
    else if c = '\x7b' then
      (templateTail ⟨top.start, top.depth + 1⟩ outer next rest).after 1
    else if c = '\x7d' then
      (templateTail ⟨top.start, top.depth - 1⟩ outer next rest).after 1
    else if c = '\x60' then
      (templateTail ⟨offset, 0⟩ (top :: outer) next rest).after 1
    else if c = '\'' || c = '"' then
      let literal := quotedTail c offset rest
      match literal.result with
      | .error error => .fail (1 + literal.length) error
      | .ok _ =>
        (templateTail top outer (next + Text.byteLength (rest.take literal.length))
          (rest.drop literal.length)).after (1 + literal.length)
    else (templateTail top outer next rest).after 1
termination_by cs.length

/-- A template literal, from its opening backtick on. -/
def template (start : Nat) (cs : List Char) : Scan Unit :=
  (templateTail ⟨start, 0⟩ [] (start + 1) cs.tail).after 1

end TidyScript.Token
