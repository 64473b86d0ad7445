import TidyScript.Proofs.Token.Lossless

/-!
# Tokens in a line

The tokens of a source stand one behind the other, each as long as its text, and the end mark
stands behind all of them. Every token has the text that the source has at its place, and so has
every comment. Whatever is placed from the start of one token to the end of another can therefore be
cut out of the source.
-/

namespace TidyScript

open Text (byteLength Shows)

/-- The tokens of a row stand one behind the other, with the end mark at the end. -/
structure TokenRow.Lined (row : TokenRow) : Prop where
  ordered : row.tokens.Pairwise fun a b => a.span.stop ≤ b.span.start
  sized : ∀ token ∈ row.tokens,
    token.span.stop = token.span.start + byteLength token.text.toList
  written : ∀ token ∈ row.tokens, token.span.start < token.span.stop
  live : ∀ token ∈ row.tokens, token.kind ≠ .eof
  closed : ∀ token ∈ row.tokens, token.span.stop ≤ row.stop.span.start
  ended : row.stop.kind = .eof

namespace TokenRow

/-- **Every token and every comment has the text that the source has at its place.** -/
theorem shows_of_ofString {source : String} {row : TokenRow} (read : ofString source = .ok row) :
    (∀ token ∈ row.tokens, Shows source token.span token.text) ∧
      ∀ comment ∈ row.comments, Shows source comment.span comment.text := by
  obtain ⟨parts, strung, tokens, comments, _⟩ := exists_strung read
  have shows := @Lexical.Strung.shows _ _ source [] [] strung (by simp)
  rw [← tokens, ← comments]
  exact ⟨fun token mem => shows _ (Lexical.mem_filterMap_token?.1 mem),
    fun comment mem => shows _ (Lexical.mem_filterMap_comment?.1 mem)⟩

/-- **The tokens of a source stand in a line.** -/
theorem lined_of_ofString {source : String} {row : TokenRow} (read : ofString source = .ok row) :
    row.Lined := by
  obtain ⟨parts, strung, tokens, _, isEnd, _, stopSpan⟩ := exists_strung read
  have within : ∀ token ∈ row.tokens, token.span.start < token.span.stop ∧
      token.span.stop ≤ byteLength source.toList := by
    intro token mem
    have bounds := strung.bounds _ (Lexical.mem_filterMap_token?.1 (tokens ▸ mem))
    exact ⟨bounds.2.1, Nat.zero_add (byteLength _) ▸ bounds.2.2⟩
  refine ⟨?_, fun token mem => ?_, fun token mem => (within token mem).1, fun token mem => ?_,
    fun token mem => stopSpan ▸ (within token mem).2, isEnd⟩
  · rw [← tokens]
    refine strung.pairwise.filterMap _ fun a b le t isT t' isT' => ?_
    cases a <;> cases b <;> cases isT <;> cases isT'
    exact le
  · obtain ⟨_, _, _, span⟩ := (shows_of_ofString read).1 token mem
    rw [span]
  · obtain ⟨ps, final, _, fits, rfl⟩ := fits_of_ofString read
    obtain ⟨p, memP, place, rfl⟩ := Piece.mem_tokens mem
    exact fits.kind_ne_eof p memP

end TokenRow

end TidyScript
