import TidyScript.Proofs.Token.Respacing

/-!
# Excerpts of a source

An excerpt of a source runs from the start of one of its tokens to the end of another. Reading it
gives the tokens and the comments between these two places once more, moved to the front. A lexeme
is found by looking at what stands behind it, but never beyond the next token, and the excerpt ends
where a token ends. What stood in front matters only for a slash, which may divide in the source and
open a regular expression at the start of the excerpt.
-/

namespace TidyScript

open Text (byteLength)
open Token (trivia Gap)

/-- The span, moved on by a number of bytes. -/
def Span.shift (span : Span) (count : Nat) : Span :=
  ⟨span.start + count, span.stop + count⟩

/-- The token, moved on by a number of bytes. -/
def Token.shift (token : Token) (count : Nat) : Token :=
  { token with span := token.span.shift count }

/-- The comment, moved on by a number of bytes. -/
def Comment.shift (comment : Comment) (count : Nat) : Comment :=
  { comment with span := comment.span.shift count }

/-! ## Moving a text -/

/-- The comments of a text that is moved are moved. -/
theorem Token.comments_trivia_add (offset count : Nat) (cs : List Char) :
    (trivia (offset + count) cs).comments =
      (trivia offset cs).comments.map (·.shift count) := by
  induction offset, cs using trivia_induction with
  | firm offset cs firm => rw [trivia_of_solid _ firm, trivia_of_solid _ firm]; rfl
  | lineBreak offset c rest breaks ih =>
    rw [trivia_of_isLineBreak breaks, trivia_of_isLineBreak breaks, Nat.add_right_comm]
    exact ih
  | blank offset c rest stays blank ih =>
    rw [trivia_of_isBlank stays blank, trivia_of_isBlank stays blank, Nat.add_right_comm]
    exact ih
  | comment offset block text behind comment ih =>
    rw [trivia_of_isComment comment, trivia_of_isComment comment]
    simp only [Trivia.afterComment, Trivia.after, List.map_cons, Nat.add_right_comm offset count]
    exact congrArg₂ List.cons rfl ih
  | unclosed offset body unclosed =>
    rw [trivia_of_unclosed unclosed, trivia_of_unclosed unclosed]
    rfl

namespace Piece

theorem token_add (offset count : Nat) (p : Piece) :
    p.token (offset + count) = (p.token offset).shift count := by
  simp [token, Token.shift, Span.shift, Nat.add_right_comm]

theorem tokens_add (offset count : Nat) (ps : List Piece) :
    tokens (offset + count) ps = (tokens offset ps).map (·.shift count) := by
  induction ps generalizing offset with
  | nil => rfl
  | cons p ps ih =>
    rw [tokens_cons, tokens_cons, List.map_cons, token_add, Nat.add_right_comm, ih]

theorem comments_add (offset count : Nat) (ps : List Piece) :
    comments (offset + count) ps = (comments offset ps).map (·.shift count) := by
  induction ps generalizing offset with
  | nil => rfl
  | cons p ps ih =>
    rw [comments, comments, List.map_append, Token.comments_trivia_add, Nat.add_right_comm, ih]

/-- From one token of a row to another there is a stretch of pieces. -/
theorem exists_stretch {i j : Nat} {ps : List Piece} {a b : Token}
    (first : (tokens 0 ps)[i]? = some a) (last : (tokens 0 ps)[j]? = some b) (le : i ≤ j) :
    ∃ front p middle behind, ps = front ++ p :: (middle ++ behind) ∧ front.length = i ∧
      middle.length = j - i ∧ a = p.token (width front) ∧
        b.span.stop = width front + p.bytes + width middle := by
  obtain ⟨before, q, behind, rfl, rfl, rfl⟩ := exists_split_of_getElem? last
  obtain ⟨front, p, rest, parts, rfl, rfl⟩ := exists_split_of_getElem? first
  obtain ⟨middle, through, rfl⟩ : ∃ middle, before ++ [q] = front ++ [p] ++ middle ∧
      rest = middle ++ behind := by
    have parts' : (front ++ [p]) ++ rest = (before ++ [q]) ++ behind := by simpa using parts.symm
    rcases List.append_eq_append_iff.1 parts' with inside | ⟨middle, shorter, _⟩
    · exact inside
    · have length := congrArg List.length shorter
      simp only [List.length_append, List.length_singleton] at length
      obtain rfl : middle = [] := List.eq_nil_of_length_eq_zero (by omega)
      exact ⟨[], by simpa using shorter.symm, by simp_all⟩
  have length := congrArg List.length through
  have bytes := congrArg width through
  simp only [List.length_append, List.length_singleton, width_append, width_cons, width_nil,
    Nat.add_zero] at length bytes
  refine ⟨front, p, middle, behind, parts, rfl, by omega, by rw [Nat.zero_add], ?_⟩
  simp only [token, Nat.zero_add]
  omega

/-- The text of a stretch of pieces without the gap in front of it. -/
theorem cut_stretch {source : String} {front middle behind : List Piece} {p : Piece}
    {final : List Char} (whole : source.toList = render (front ++ p :: (middle ++ behind)) final) :
    Text.cut source ⟨width front + byteLength p.gap, width front + p.bytes + width middle⟩ =
      .ok (String.ofList (p.text ++ middle.flatMap chars)) := by
  have parts : source.toList = (front.flatMap chars ++ p.gap) ++
      (p.text ++ middle.flatMap chars) ++ render behind final := by
    rw [whole]
    simp [render, chars]
  rw [← Text.cut_middle parts]
  simp [bytes, width, chars, Nat.add_assoc]

theorem render_alone (p : Piece) (middle : List Piece) :
    render (⟨[], p.kind, p.text⟩ :: middle) [] = p.text ++ middle.flatMap chars := by
  simp [render, chars]

/-- A stretch of pieces that fit is a row of its own. -/
theorem Fits.stretch {regexAllowed : Bool} {p : Piece} {middle behind : List Piece}
    {final : List Char} (fits : Fits regexAllowed (p :: (middle ++ behind)) final)
    (noDivision : ¬ (p.kind = .punctuator ∧ p.text.head? = some '/')) :
    Fits true (⟨[], p.kind, p.text⟩ :: middle) [] := by
  refine fits.respace rfl rfl ⟨false, .nil⟩ (List.forall₂_same.2 fun q _ => .refl q) (by simp)
    fun slash => ?_
  rcases fits.1.lexes.slash_cases slash with ⟨_, allowed⟩ | ⟨isOperator, _⟩
  · exact allowed.symm
  · exact absurd ⟨isOperator, slash⟩ noDivision

theorem filter_contains_eq_nil {span : Span} {found : List Comment}
    (apart : ∀ comment ∈ found, comment.span.start < comment.span.stop ∧
      (comment.span.stop ≤ span.start ∨ span.stop ≤ comment.span.start)) :
    found.filter (fun comment => span.contains comment.span) = [] := by
  refine List.filter_eq_nil_iff.2 fun comment mem => ?_
  have := apart comment mem
  simp only [Span.contains, Bool.and_eq_true, decide_eq_true_eq]
  omega

/-- The comments inside the span of a stretch of pieces are those between its tokens. -/
theorem filter_comments {front middle behind : List Piece} {p : Piece} {final : List Char}
    {span : Span} (starts : span.start = width front + byteLength p.gap)
    (stops : span.stop = width front + p.bytes + width middle) :
    (row 0 [] (front ++ p :: (middle ++ behind)) final).comments.filter
      (fun comment => span.contains comment.span) = comments (width front + p.bytes) middle := by
  have bytes : p.bytes = byteLength p.gap + byteLength p.text := Text.byteLength_append ..
  have before : (comments 0 front).filter (fun comment => span.contains comment.span) = [] :=
    filter_contains_eq_nil fun comment mem => by
      have := bounds_of_mem_comments mem
      omega
  have ahead : (trivia (width front) p.gap).comments.filter
      (fun comment => span.contains comment.span) = [] :=
    filter_contains_eq_nil fun comment mem => by
      have := Token.bounds_of_mem_trivia mem
      omega
  have inside : (comments (width front + p.bytes) middle).filter
      (fun comment => span.contains comment.span) = comments (width front + p.bytes) middle := by
    refine List.filter_eq_self.2 fun comment mem => ?_
    have := bounds_of_mem_comments mem
    simp only [Span.contains, Bool.and_eq_true, decide_eq_true_eq]
    omega
  have later : (comments (width front + p.bytes + width middle) behind).filter
      (fun comment => span.contains comment.span) = [] :=
    filter_contains_eq_nil fun comment mem => by
      have := bounds_of_mem_comments mem
      omega
  have last : (trivia (width front + p.bytes + width middle + width behind) final).comments.filter
      (fun comment => span.contains comment.span) = [] :=
    filter_contains_eq_nil fun comment mem => by
      have := Token.bounds_of_mem_trivia mem
      omega
  simp only [row, List.nil_append, comments_append, comments, List.filter_append, width_append,
    width_cons, Nat.zero_add, ← Nat.add_assoc]
  rw [before, ahead, inside, later, last]
  simp

theorem extract_tokens (front middle behind : List Piece) (p : Piece) :
    (tokens 0 (front ++ p :: (middle ++ behind))).extract (front.length + 1)
      (front.length + 1 + middle.length) = tokens (width front + p.bytes) middle := by
  rw [tokens_append, tokens_cons, tokens_append, Nat.zero_add, List.extract_eq_take_drop,
    Nat.add_sub_cancel_left, List.drop_append, List.drop_of_length_le (by simp)]
  simp

/-- The tokens of a stretch of pieces without the gap in front of it, moved to their places. -/
theorem map_shift_tokens (front middle : List Piece) (p : Piece) :
    (tokens 0 (⟨[], p.kind, p.text⟩ :: middle)).map (·.shift (width front + byteLength p.gap)) =
      { p.token (width front) with newlineBefore := false } ::
        tokens (width front + p.bytes) middle := by
  rw [← tokens_add, tokens_cons]
  have still : newline ⟨[], p.kind, p.text⟩ = false := newline_eq .nil
  simp [token, still, bytes, chars, Nat.add_assoc]

theorem map_shift_comments (front middle : List Piece) (p : Piece) :
    (row 0 [] (⟨[], p.kind, p.text⟩ :: middle) []).comments.map
      (·.shift (width front + byteLength p.gap)) = comments (width front + p.bytes) middle := by
  have nothing (offset : Nat) : (trivia offset []).comments = [] := by rw [trivia]; rfl
  rw [row, comments, nothing, nothing, List.nil_append, List.nil_append, List.append_nil,
    ← comments_add]
  simp [bytes, chars, Nat.add_comm, Nat.add_assoc]

end Piece

namespace TokenRow

/-- **An excerpt is read as the tokens it is taken from.** From the start of a token to the end of
the same or a later one, where the first is no operator that begins with a slash, the source can be
cut out and read. This gives these tokens and the comments between them, moved to the front. Only
the line break in front of the first is lost. -/
theorem exists_excerpt {source : String} {row : TokenRow} (read : ofString source = .ok row)
    {i j : Nat} {a b : Token} (first : row.tokens[i]? = some a) (last : row.tokens[j]? = some b)
    (le : i ≤ j) (noDivision : ¬ (a.kind = .punctuator ∧ a.text.toList.head? = some '/')) :
    ∃ text part, Text.cut source ⟨a.span.start, b.span.stop⟩ = .ok text ∧ ofString text = .ok part ∧
      part.tokens.map (·.shift a.span.start) =
        { a with newlineBefore := false } :: row.tokens.extract (i + 1) (j + 1) ∧
      part.stop = ⟨.eof, "", ⟨byteLength text.toList, byteLength text.toList⟩, false⟩ ∧
      part.comments.map (·.shift a.span.start) = row.comments.filter fun comment =>
        Span.contains ⟨a.span.start, b.span.stop⟩ comment.span := by
  obtain ⟨ps, final, whole, fits, rfl⟩ := fits_of_ofString read
  obtain ⟨front, p, middle, behind, rfl, rfl, length, rfl, stop⟩ := Piece.exists_stretch first last le
  obtain ⟨_, fits⟩ := fits.right
  have apart := fits.stretch (by simpa [Piece.token] using noDivision)
  have ends : j + 1 = front.length + 1 + middle.length := by omega
  refine ⟨_, _, ?_, ofString_of_fits apart, ?_, ?_, ?_⟩
  · rw [stop, Piece.render_alone]
    exact Piece.cut_stretch whole
  · rw [ends]
    exact (Piece.map_shift_tokens front middle p).trans
      (congrArg _ (Piece.extract_tokens front middle behind p).symm)
  · have nothing (offset : Nat) : (trivia offset []).lineBreak = false := by rw [trivia]; rfl
    rw [String.toList_ofList, Piece.row, Piece.endMark, nothing, Piece.render]
    simp [Piece.width]
  · refine (Piece.map_shift_comments front middle p).trans (Eq.symm ?_)
    exact Piece.filter_comments rfl stop

/-- From a regular expression to a template, with comments of both kinds between them. -/
theorem exists_excerpt_regex :
    ∃ row a b, ofString "q=\n/a\\/b/g /*é*/ ? .5e+1\n// c\n: \x60$\x7bx\x7d\x60 / 2" = .ok row ∧
      row.tokens[2]? = some a ∧ row.tokens[6]? = some b ∧
      (a.kind = .regex ∧ a.newlineBefore = true ∧ b.kind = .template) ∧
      ∃ text part, Text.cut "q=\n/a\\/b/g /*é*/ ? .5e+1\n// c\n: \x60$\x7bx\x7d\x60 / 2"
          ⟨a.span.start, b.span.stop⟩ = .ok text ∧ ofString text = .ok part ∧
        part.tokens.map (·.shift a.span.start) =
          { a with newlineBefore := false } :: row.tokens.extract (2 + 1) (6 + 1) ∧
        part.stop = ⟨.eof, "", ⟨byteLength text.toList, byteLength text.toList⟩, false⟩ ∧
        part.comments.map (·.shift a.span.start) = row.comments.filter fun comment =>
          Span.contains ⟨a.span.start, b.span.stop⟩ comment.span := by
  have checked : (ofString
      "q=\n/a\\/b/g /*é*/ ? .5e+1\n// c\n: \x60$\x7bx\x7d\x60 / 2").toOption.any (fun row =>
        row.tokens[2]?.any fun a => row.tokens[6]?.any fun b =>
          a.kind = .regex ∧ a.newlineBefore = true ∧ b.kind = .template) = true := by decide +kernel
  obtain ⟨row, read, checked⟩ := exists_ok_of_any checked
  obtain ⟨a, first, checked⟩ := (Option.any_eq_true ..).1 checked
  obtain ⟨b, last, checked⟩ := (Option.any_eq_true ..).1 checked
  have kinds := of_decide_eq_true checked
  refine ⟨row, a, b, read, first, last, kinds, exists_excerpt read first last (by decide) ?_⟩
  rw [kinds.1]
  exact fun isOperator => nomatch isOperator.1

end TokenRow

end TidyScript
