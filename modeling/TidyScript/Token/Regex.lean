import TidyScript.Token.Scan
import TidyScript.Token.Word

/-!
# Regular expression literals

A regular expression literal runs from a slash to the next slash that is neither
protected by a backslash nor inside a character class, and takes the word
characters behind it as its flags. It cannot contain a line break.
-/

namespace TidyScript.Token

/-- The rest of the body of a regular expression, up to and with its closing
slash. -/
def regexTail (start : Nat) (inClass : Bool) (cs : List Char) : Scan Unit :=
  match cs with
  | [] => .fail 0 (.unterminatedRegex start)
  | c :: rest =>
    if c = '\n' || c = '\r' then .fail 0 (.unterminatedRegex start)
    else if c = '\\' then
      match rest with
      | [] => .fail 1 (.unterminatedRegex start)
      | _ :: behind => (regexTail start inClass behind).after 2
    else if c = '[' then (regexTail start true rest).after 1
    else if c = ']' then (regexTail start false rest).after 1
    else if c = '/' && !inClass then .done 1 ()
    else (regexTail start inClass rest).after 1
termination_by cs.length

/-- A regular expression literal with its flags, from its opening slash on. -/
def regex (start : Nat) (cs : List Char) : Scan Unit :=
  let body := (regexTail start false cs.tail).after 1
  match body.result with
  | .ok _ => .done (body.length + wordTail (cs.drop body.length)) ()
  | .error error => .fail body.length error

/-- A regular expression takes at least one character, closed or not. -/
theorem regex_length_pos (start : Nat) (cs : List Char) : 0 < (regex start cs).length := by
  have opening : 0 < ((regexTail start false cs.tail).after 1).length :=
    Nat.lt_of_lt_of_le Nat.one_pos (Nat.le_add_right _ _)
  unfold regex
  dsimp only
  split
  · exact Nat.lt_of_lt_of_le opening (Nat.le_add_right _ _)
  · exact opening

end TidyScript.Token
