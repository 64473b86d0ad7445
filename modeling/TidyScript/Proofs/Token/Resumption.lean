import TidyScript.Proofs.Token.Lossless

/-!
# Reading on behind an error

A call that fails leaves the lexer at the place where it gave up, and the next call goes on from
there. Each call passes over a gap and then takes a number of characters, whether it finds a token
or not. So the lexer always stands between two characters of the source, and the comments it has
passed stand one behind the other in front of it.
-/

namespace TidyScript.Lexer

open Text (byteLength Boundary)
open Token (trivia)

/-- The lexer after a number of calls, whatever they have given. -/
def after (lexer : Lexer) : Nat → Lexer
  | 0 => lexer
  | n + 1 => (lexer.after n).next.2

/-- The result of a call that has come to `start` and takes a number of characters there. If it is
an error, a slash is read as before. If it is a token, the token is what is taken. -/
def Takes (start : Lexer) (result : Except LexError Token × Lexer) : Prop :=
  ∃ count regexAllowed, result.2 = { start.advance count with regexAllowed } ∧
    (∀ error, result.1 = .error error → regexAllowed = start.regexAllowed) ∧
    ∀ token, result.1 = .ok token → token.span = ⟨start.offset, result.2.offset⟩

theorem takes_nothing {start : Lexer} (error : LexError) : start.Takes (.error error, start) :=
  ⟨0, start.regexAllowed, by simp [advance], fun _ _ => rfl, fun _ found => nomatch found⟩

theorem takes_tokenHere (start : Lexer) (lineBreak : Bool) :
    start.Takes (start.tokenHere lineBreak) := by
  unfold tokenHere
  split
  · refine ⟨0, false, by simp [advance], by simp, fun _ found => ?_⟩
    cases found
    rfl
  · dsimp only
    split
    · exact ⟨_, _, rfl, fun _ _ => rfl, fun _ found => nomatch found⟩
    · refine ⟨_, _, rfl, by simp, fun _ found => ?_⟩
      cases found
      rfl

/-- A call passes over a gap and takes a number of characters. -/
theorem takes_next (lexer : Lexer) :
    (lexer.skip (trivia lexer.offset lexer.rest)).Takes lexer.next := by
  unfold next
  dsimp only
  split
  · exact takes_nothing _
  · exact takes_tokenHere ..

/-- The lexer stands between two characters of the source. The comments it has passed stand one
behind the other in front of it. -/
structure StandsIn (source : String) (lexer : Lexer) : Prop where
  text : ∃ front, source.toList = front ++ lexer.rest ∧ byteLength front = lexer.offset
  inOrder : lexer.comments.Pairwise fun a b => a.span.stop ≤ b.span.start
  passed : ∀ comment ∈ lexer.comments,
    comment.span.start < comment.span.stop ∧ comment.span.stop ≤ lexer.offset

namespace StandsIn

variable {source : String} {lexer : Lexer}

theorem advance (stands : StandsIn source lexer) (count : Nat) :
    StandsIn source (lexer.advance count) := by
  obtain ⟨⟨front, text, place⟩, inOrder, passed⟩ := stands
  refine ⟨⟨front ++ lexer.rest.take count, ?_, ?_⟩, inOrder, fun comment mem => ?_⟩
  · rw [List.append_assoc, text]
    exact congrArg _ (List.take_append_drop ..).symm
  · rw [Text.byteLength_append, place]
    rfl
  · exact ⟨(passed comment mem).1, (passed comment mem).2.trans (Nat.le_add_right _ _)⟩

/-- The comments of the gap stand behind those passed before. -/
theorem skip (stands : StandsIn source lexer) :
    StandsIn source (lexer.skip (trivia lexer.offset lexer.rest)) := by
  have strung := Token.strung_trivia lexer.offset lexer.rest
  have bounds := List.forall_mem_map.1 strung.bounds
  obtain ⟨text, inOrder, passed⟩ := stands.advance (trivia lexer.offset lexer.rest).length
  refine ⟨text, List.pairwise_append.2 ⟨inOrder, List.pairwise_map.1 strung.pairwise, ?_⟩, ?_⟩
  · intro a before b here
    exact (stands.passed a before).2.trans (bounds b here).1
  · exact List.forall_mem_append.2 ⟨passed, fun comment here => (bounds comment here).2⟩

theorem next (stands : StandsIn source lexer) : StandsIn source lexer.next.2 := by
  obtain ⟨count, regexAllowed, behind, _⟩ := lexer.takes_next
  obtain ⟨text, inOrder, passed⟩ := stands.skip.advance count
  rw [behind]
  exact ⟨text, inOrder, passed⟩

end StandsIn

end TidyScript.Lexer
