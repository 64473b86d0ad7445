import TidyScript.Token.Basic

/-!
# Binary search

A test on the tokens of a source that fails on some first tokens and holds on all
others has a first token where it holds. Binary search finds its index; if the test
holds nowhere, it finds the number of tokens.
-/

namespace TidyScript.Token

/-- Narrows the range from `low` to `high`, which holds the first index where the
test holds. -/
def searchBetween (test : Token → Bool) (tokens : Array Token) (low high : Nat) : Nat :=
  if low < high then
    let middle := low + (high - low) / 2
    match tokens[middle]? with
    | some token =>
      if test token then searchBetween test tokens low middle
      else searchBetween test tokens (middle + 1) high
    | none => low
  else low
termination_by high - low

/-- The index of the first token where the test holds. -/
def firstIndex (test : Token → Bool) (tokens : Array Token) : Nat :=
  searchBetween test tokens 0 tokens.size

end TidyScript.Token
