import TidyScript.Proofs.Token.Lossless

/-!
# Line breaks between tokens

A token tells whether a line break stands in front of it. Between two tokens there may be white space
and comments, and they are not asked the same: outside of comments every line break counts, and
inside of them only a line feed does. So the answer of a token can be read off the source and the
places of its comments.
-/

namespace TidyScript

open Text (byteLength)
open Token (trivia isLineBreak)

/-- The text, which starts at a byte offset, has a line feed, or another line break outside of all
comments. -/
def BreaksLine (comments : List Comment) (offset : Nat) (text : List Char) : Prop :=
  ∃ front c back, text = front ++ c :: back ∧ isLineBreak c = true ∧
    (c = '\n' ∨ ∀ comment ∈ comments, offset + byteLength front < comment.span.start ∨
      comment.span.stop ≤ offset + byteLength front)

section Breaks

variable {comments : List Comment} {offset : Nat} {cs : List Char}

theorem not_breaksLine_nil : ¬ BreaksLine comments offset [] := by
  rintro ⟨front, c, back, parts, _⟩
  simp at parts

/-- Outside of the comments, each line break counts. -/
theorem breaksLine_cons {c : Char}
    (behind : ∀ comment ∈ comments, offset + c.utf8Size ≤ comment.span.start) :
    BreaksLine comments offset (c :: cs) ↔
      isLineBreak c = true ∨ BreaksLine comments (offset + c.utf8Size) cs := by
  have positive := c.utf8Size_pos
  constructor
  · rintro ⟨front, d, back, parts, breaks, counts⟩
    cases front with
    | nil =>
      obtain ⟨rfl, rfl⟩ := List.cons.inj parts
      exact .inl breaks
    | cons d' front =>
      obtain ⟨rfl, rfl⟩ := List.cons.inj parts
      exact .inr ⟨front, d, back, rfl, breaks, by simpa [Nat.add_assoc] using counts⟩
  · rintro (breaks | ⟨front, d, back, rfl, breaks, counts⟩)
    · refine ⟨[], c, cs, rfl, breaks, .inr fun comment mem => .inl ?_⟩
      have := behind comment mem
      rw [Text.byteLength_nil]
      omega
    · exact ⟨c :: front, d, back, rfl, breaks, by simpa [Nat.add_assoc] using counts⟩

/-- Inside of a comment, a line feed counts. -/
theorem breaksLine_comment {comment : Comment} {text : List Char}
    (place : comment.span = ⟨offset, offset + byteLength text⟩)
    (behind : ∀ other ∈ comments, offset + byteLength text ≤ other.span.start) :
    BreaksLine (comment :: comments) offset (text ++ cs) ↔
      '\n' ∈ text ∨ BreaksLine comments (offset + byteLength text) cs := by
  simp only [BreaksLine, List.forall_mem_cons, place]
  constructor
  · rintro ⟨front, c, back, parts, breaks, counts⟩
    by_cases inside : byteLength front < byteLength text
    · -- the place lies in the comment, so that only a line feed counts there
      have feed : c = '\n' := counts.resolve_right fun apart => by
        have := apart.1
        omega
      obtain ⟨middle, rfl, rest⟩ := Text.exists_between parts.symm (Nat.le_of_lt inside)
      cases middle with
      | nil => simp at inside
      | cons d middle =>
        obtain ⟨rfl, _⟩ := List.cons.inj rest
        exact .inl (by simp [feed])
    · obtain ⟨middle, rfl, rfl⟩ := Text.exists_between parts (Nat.le_of_not_lt inside)
      refine .inr ⟨middle, c, back, rfl, breaks, counts.imp_right fun apart other mem => ?_⟩
      simpa [Nat.add_assoc] using apart.2 other mem
  · rintro (mem | ⟨front, c, back, rfl, breaks, counts⟩)
    · obtain ⟨front, back, rfl⟩ := List.append_of_mem mem
      exact ⟨front, '\n', back ++ cs, by simp, by decide, .inl rfl⟩
    · refine ⟨text ++ front, c, back, by simp, breaks, counts.imp_right fun apart => ?_⟩
      rw [Text.byteLength_append, ← Nat.add_assoc]
      exact ⟨.inr (Nat.le_add_right _ _), apart⟩

end Breaks

/-- **What is passed over has a line break exactly when one counts in it.** -/
theorem Token.lineBreak_trivia_iff (offset : Nat) (cs : List Char) :
    (trivia offset cs).lineBreak = true ↔
      BreaksLine (trivia offset cs).comments offset (cs.take (trivia offset cs).length) := by
  have bounds {offset : Nat} {cs : List Char} : ∀ comment ∈ (trivia offset cs).comments,
      offset ≤ comment.span.start := fun comment mem => (bounds_of_mem_trivia mem).1
  induction offset, cs using trivia_induction with
  | firm offset cs firm =>
    rw [trivia_of_solid offset firm]
    exact iff_of_false Bool.false_ne_true not_breaksLine_nil
  | lineBreak offset c rest breaks ih =>
    rw [trivia_of_isLineBreak breaks]
    simp only [Trivia.after, Nat.add_comm 1, List.take_succ_cons]
    exact iff_of_true rfl ((breaksLine_cons bounds).2 (.inl breaks))
  | blank offset c rest stays blank ih =>
    rw [trivia_of_isBlank stays blank]
    simp only [Trivia.after, Nat.add_comm 1, List.take_succ_cons]
    rw [breaksLine_cons bounds, or_iff_right (by simp [stays])]
    exact ih
  | comment offset block text behind comment ih =>
    have feeds : (block && text.contains '\n') = true ↔ '\n' ∈ text := by
      cases comment with
      | line oneLine => simpa using fun mem => (oneLine _ mem).1 rfl
      | block => simp
    rw [trivia_of_isComment comment]
    simp only [Trivia.afterComment, Trivia.after]
    rw [List.take_length_add_append, breaksLine_comment rfl bounds, Bool.or_eq_true]
    exact or_congr feeds ih
  | unclosed offset body unclosed =>
    rw [trivia_of_unclosed unclosed]
    exact iff_of_false Bool.false_ne_true not_breaksLine_nil

/-- Behind pieces of a source, a gap that is passed over has a line break exactly when one counts
there among all comments of the source. -/
theorem Piece.lineBreak_iff_among {source : String} {front : List Piece} {gap rest : List Char}
    (text : source.toList = front.flatMap chars ++ gap ++ rest)
    (whole : (trivia (width front) gap).length = gap.length) {later : List Comment}
    (behind : ∀ comment ∈ later, width front + byteLength gap ≤ comment.span.start) :
    ∃ text, Text.cut source ⟨width front, width front + byteLength gap⟩ = .ok text ∧
      ((trivia (width front) gap).lineBreak = true ↔
        BreaksLine (comments 0 front ++ ((trivia (width front) gap).comments ++ later))
          (width front) text.toList) := by
  refine ⟨_, Text.cut_middle text, ?_⟩
  rw [String.toList_ofList, Token.lineBreak_trivia_iff, whole, List.take_length]
  refine exists_congr fun before => exists_congr fun c => exists_congr fun after =>
    and_congr_right fun parts => and_congr_right fun _ => or_congr_right ?_
  have inside : byteLength before < byteLength gap := by
    have := c.utf8Size_pos
    rw [parts, Text.byteLength_append, Text.byteLength_cons]
    omega
  simp only [List.forall_mem_append]
  refine ⟨fun found => ⟨fun comment mem => ?_, found, fun comment mem => ?_⟩, fun all => all.2.1⟩
  · have := bounds_of_mem_comments mem
    omega
  · have := behind comment mem
    omega

namespace TokenRow

/-- Where the tokens in front of the `i`th one end; at the start of the source if there are none. -/
def endBefore (row : TokenRow) (i : Nat) : Nat :=
  ((row.tokens.take i).getLast?.map (·.span.stop)).getD 0

theorem endBefore_row (front behind : List Piece) (final : List Char) :
    (Piece.row 0 [] (front ++ behind) final).endBefore front.length = Piece.width front := by
  have taken : (Piece.row 0 [] (front ++ behind) final).tokens.take front.length =
      Piece.tokens 0 front := by
    rw [Piece.row, Piece.tokens_append, List.take_left' (Piece.tokens_length ..)]
  rw [endBefore, taken]
  rcases List.eq_nil_or_concat front with rfl | ⟨front, p, rfl⟩
  · rfl
  · rw [List.concat_eq_append, Piece.tokens_append]
    simp [Piece.token]

/-- **A token has a line break in front of it exactly when one counts there.** From the end of the
token before it, or from the start of the source, to its own start there is a line feed, or another
line break outside of all comments. The end mark is no exception. -/
theorem newlineBefore_iff {source : String} {row : TokenRow} (read : ofString source = .ok row)
    {i : Nat} {token : Token} (here : (row.tokens ++ [row.stop])[i]? = some token) :
    ∃ text, Text.cut source ⟨row.endBefore i, token.span.start⟩ = .ok text ∧
      (token.newlineBefore = true ↔ BreaksLine row.comments (row.endBefore i) text.toList) := by
  obtain ⟨ps, final, whole, fits, rfl⟩ := fits_of_ofString read
  rw [List.getElem?_append] at here
  split at here
  · obtain ⟨front, p, behind, rfl, rfl, rfl⟩ := Piece.exists_split_of_getElem? here
    obtain ⟨_, fits⟩ := fits.right
    have passed := fits.1.gap.trivia_eq (Piece.width front)
    have parts : source.toList = front.flatMap Piece.chars ++ p.gap ++
        (p.text ++ Piece.render behind final) := by
      rw [whole]
      simp [Piece.render, Piece.chars]
    have comments : (Piece.row 0 [] (front ++ p :: behind) final).comments =
        Piece.comments 0 front ++ ((trivia (Piece.width front) p.gap).comments ++
          (Piece.comments (Piece.width front + p.bytes) behind ++
            (trivia (Piece.width front + p.bytes + Piece.width behind) final).comments)) := by
      simp [Piece.row, Piece.comments_append, Piece.comments, Nat.add_assoc]
    have flag : (p.token (Piece.width front)).newlineBefore =
        (trivia (Piece.width front) p.gap).lineBreak := by
      rw [passed]
      rfl
    rw [endBefore_row, comments, Nat.zero_add, flag]
    refine Piece.lineBreak_iff_among parts (by rw [passed]) fun comment mem => ?_
    have bytes : p.bytes = byteLength p.gap + byteLength p.text := Text.byteLength_append ..
    rcases List.mem_append.1 mem with later | last
    · have := Piece.bounds_of_mem_comments later
      omega
    · have := Token.bounds_of_mem_trivia last
      omega
  · next far =>
    have length : (Piece.row 0 [] ps final).tokens.length = ps.length := Piece.tokens_length ..
    rw [List.getElem?_singleton] at here
    split at here <;> cases here
    obtain rfl : i = ps.length := by omega
    have start := endBefore_row ps [] final
    have parts : source.toList = ps.flatMap Piece.chars ++ final ++ [] := by
      rw [whole, Piece.render, List.append_nil]
    have comments : (Piece.row 0 [] ps final).comments =
        Piece.comments 0 ps ++ ((trivia (Piece.width ps) final).comments ++ []) := by
      simp [Piece.row]
    rw [List.append_nil] at start
    rw [start, comments]
    simp only [Piece.row, Piece.endMark, Nat.zero_add]
    exact Piece.lineBreak_iff_among parts (fits.finalGap.trivia_eq _).1 (by simp)

/-- A line feed in a comment, behind a separator in another one. -/
theorem newlineBefore_iff_feed : ∃ row token,
    ofString "a/*\u2028*//*é\n*/b" = .ok row ∧ (row.tokens ++ [row.stop])[1]? = some token ∧
      token.newlineBefore = true ∧
      ∃ text, Text.cut "a/*\u2028*//*é\n*/b" ⟨row.endBefore 1, token.span.start⟩ = .ok text ∧
        (token.newlineBefore = true ↔ BreaksLine row.comments (row.endBefore 1) text.toList) := by
  have checked : (ofString "a/*\u2028*//*é\n*/b").toOption.any (fun row =>
      (row.tokens ++ [row.stop])[1]?.any fun token => token.newlineBefore) = true := by
    decide +kernel
  obtain ⟨row, read, checked⟩ := exists_ok_of_any checked
  obtain ⟨token, here, flag⟩ := (Option.any_eq_true ..).1 checked
  exact ⟨row, token, read, here, flag,
    newlineBefore_iff read here⟩

/-- A carriage return in a comment is a line break between two tokens that does not count. -/
theorem newlineBefore_return_in_comment : ∃ row token,
    ofString "a/*\r*/b" = .ok row ∧ (row.tokens ++ [row.stop])[1]? = some token ∧
      Text.cut "a/*\r*/b" ⟨row.endBefore 1, token.span.start⟩ = .ok "/*\r*/" ∧
        "/*\r*/".toList.any isLineBreak = true ∧ token.newlineBefore = false := by
  have checked : (ofString "a/*\r*/b").toOption.any (fun row =>
      (row.tokens ++ [row.stop])[1]?.any fun token => (Text.cut "a/*\r*/b"
        ⟨row.endBefore 1, token.span.start⟩).toOption = some "/*\r*/" ∧
          token.newlineBefore = false) = true := by
    decide +kernel
  obtain ⟨row, read, checked⟩ := exists_ok_of_any checked
  obtain ⟨token, here, checked⟩ := (Option.any_eq_true ..).1 checked
  have facts := of_decide_eq_true checked
  exact ⟨row, token, read, here, eq_ok_of_toOption facts.1, by decide, facts.2⟩

end TokenRow

end TidyScript
