/-!
# Punctuators

Operators and delimiters, longest first, so that the first one that fits is the
longest one that fits. The mark `?.` is not taken when a digit follows: `a?.5:b`
is a conditional with the number `.5`.
-/

namespace TidyScript.Token

/-- All punctuators. No punctuator stands before a longer one that it begins. -/
def punctuators : List String :=
  [">>>=", "...", "===", "!==", "**=", "<<=", ">>=", ">>>", "&&=", "||=", "??=", "=>", "==",
   "!=", "<=", ">=", "&&", "||", "??", "?.", "++", "--", "+=", "-=", "*=", "/=", "%=", "&=",
   "|=", "^=", "**", "<<", ">>", "\x7b", "\x7d", "(", ")", "[", "]", ";", ",", "<", ">", "+", "-",
   "*", "/", "%", "&", "|", "^", "!", "~", "?", ":", "=", ".", "@"]

/-- The punctuator at the front of the text. -/
def punctuator? (cs : List Char) : Option String :=
  match punctuators.find? fun text => text.toList.isPrefixOf cs with
  | some text =>
    if text = "?." && (cs.drop 2).head?.any Char.isDigit then some "?" else some text
  | none => none

/-- The delimiters that end an operand, after which a slash is a division. -/
def closers : List String := [")", "]", "\x7d"]

/-- A punctuator takes at least one character. -/
theorem length_pos_of_punctuator? {cs : List Char} {text : String}
    (h : punctuator? cs = some text) : 0 < text.length := by
  unfold punctuator? at h
  split at h
  · next found hfound =>
    have nonempty : ∀ text ∈ punctuators, 0 < text.length := by decide
    have := nonempty found (List.mem_of_find?_eq_some hfound)
    split at h <;> cases h
    · decide
    · exact this
  · cases h

end TidyScript.Token
