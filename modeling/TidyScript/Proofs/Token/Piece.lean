import TidyScript.Proofs.Text.Cut
import TidyScript.Proofs.Token.Lexeme

/-!
# A source as a row of pieces

A piece is a token together with the gap in front of it, without a place. A source that can
be read is a row of pieces and a final gap, and the tokens found in it are those of the
pieces, each at the place that the pieces in front of it leave to it. Since pieces have no
place, they can be taken out of one source and put into another.

A row fits when every piece is read as its token in front of the pieces behind it. This is
all that reading asks for: a source is read as a row of tokens exactly when it is a row of
pieces that fits.
-/

namespace TidyScript

open Token

/-- A token and the gap in front of it. -/
structure Piece where
  gap : List Char
  kind : TokenKind
  text : List Char

namespace Piece

/-- All characters of a piece. -/
def chars (p : Piece) : List Char :=
  p.gap ++ p.text

/-- The number of bytes of a piece. -/
def bytes (p : Piece) : Nat :=
  Text.byteLength p.chars

/-- Is there a line break in the gap? -/
def newline (p : Piece) : Bool :=
  (trivia 0 p.gap).lineBreak

/-- The token of a piece that starts at a byte offset. -/
def token (offset : Nat) (p : Piece) : Token :=
  ⟨p.kind, String.ofList p.text, ⟨offset + Text.byteLength p.gap, offset + p.bytes⟩, p.newline⟩

/-- The tokens of a row of pieces that starts at a byte offset. -/
def tokens (offset : Nat) : List Piece → List Token
  | [] => []
  | p :: ps => p.token offset :: tokens (offset + p.bytes) ps

/-- The number of bytes of a row of pieces. -/
def width (ps : List Piece) : Nat :=
  Text.byteLength (ps.flatMap chars)

/-- The comments in front of the tokens of a row of pieces that starts at a byte offset. -/
def comments (offset : Nat) : List Piece → List Comment
  | [] => []
  | p :: ps => (trivia offset p.gap).comments ++ comments (offset + p.bytes) ps

/-- The end mark behind a final gap that starts at a byte offset. -/
def endMark (offset : Nat) (final : List Char) : Token :=
  ⟨.eof, "", ⟨offset + Text.byteLength final, offset + Text.byteLength final⟩,
    (trivia offset final).lineBreak⟩

/-- The row of the tokens of pieces with `final` behind them, where comments have been passed
before. -/
def row (offset : Nat) (passed : List Comment) (ps : List Piece) (final : List Char) : TokenRow :=
  ⟨tokens offset ps, endMark (offset + width ps) final,
    passed ++ (comments offset ps ++ (trivia (offset + width ps) final).comments)⟩

/-- The text of a row of pieces with `final` behind it. -/
def render (ps : List Piece) (final : List Char) : List Char :=
  ps.flatMap chars ++ final

/-- Behind the piece, does a slash open a regular expression? -/
def regexBehind (p : Piece) : Bool :=
  Lexer.regexAllowedAfter p.kind (String.ofList p.text)

/-- In front of `rest`, the piece is passed over and read as its token. -/
structure Stands (regexAllowed : Bool) (p : Piece) (rest : List Char) : Prop where
  gap : Gap p.newline p.gap
  lexes : Lexes regexAllowed p.kind p.text rest
  firm : solid (p.text ++ rest) = true

/-- Every piece stands in front of the pieces behind it. -/
def Fits : (regexAllowed : Bool) → List Piece → (final : List Char) → Prop
  | _, [], final => FinalGap final
  | regexAllowed, p :: ps, final =>
    p.Stands regexAllowed (render ps final) ∧ Fits p.regexBehind ps final

@[simp] theorem tokens_nil (offset : Nat) : tokens offset [] = [] := rfl

@[simp] theorem tokens_cons (offset : Nat) (p : Piece) (ps : List Piece) :
    tokens offset (p :: ps) = p.token offset :: tokens (offset + p.bytes) ps := rfl

@[simp] theorem width_nil : width [] = 0 := rfl

@[simp] theorem width_cons (p : Piece) (ps : List Piece) : width (p :: ps) = p.bytes + width ps := by
  simp [width, bytes]

@[simp] theorem width_append (ps qs : List Piece) : width (ps ++ qs) = width ps + width qs := by
  simp [width]

theorem tokens_append (offset : Nat) (ps qs : List Piece) :
    tokens offset (ps ++ qs) = tokens offset ps ++ tokens (offset + width ps) qs := by
  induction ps generalizing offset with
  | nil => rfl
  | cons p ps ih => simp [ih, Nat.add_assoc]

@[simp] theorem tokens_length (offset : Nat) (ps : List Piece) :
    (tokens offset ps).length = ps.length := by
  induction ps generalizing offset with
  | nil => rfl
  | cons p ps ih => simp [ih]

variable {offset : Nat} {p : Piece} {ps : List Piece} {token : Token} {regexAllowed : Bool}
  {rest : List Char}

theorem exists_split_of_getElem? {i : Nat} (here : (tokens offset ps)[i]? = some token) : ∃ front p behind, ps = front ++ p :: behind ∧
      front.length = i ∧ token = p.token (offset + width front) := by
  induction ps generalizing offset i with
  | nil => cases here
  | cons p ps ih =>
    cases i with
    | zero =>
      cases here
      exact ⟨[], p, ps, rfl, rfl, rfl⟩
    | succ i =>
      obtain ⟨front, q, behind, rfl, rfl, rfl⟩ := ih here
      exact ⟨p :: front, q, behind, rfl, rfl, by simp [Nat.add_assoc]⟩

theorem exists_split_of_mem_tokens (mem : token ∈ tokens offset ps) :
    ∃ front p behind, ps = front ++ p :: behind ∧ token = p.token (offset + width front) := by
  obtain ⟨i, here⟩ := List.mem_iff_getElem?.1 mem
  obtain ⟨front, p, behind, parts, _, is⟩ := exists_split_of_getElem? here
  exact ⟨front, p, behind, parts, is⟩

theorem mem_tokens (mem : token ∈ tokens offset ps) : ∃ p ∈ ps, ∃ place, token = p.token place := by
  obtain ⟨front, p, behind, rfl, rfl⟩ := exists_split_of_mem_tokens mem
  exact ⟨p, List.mem_append_right _ (List.mem_cons_self ..), _, rfl⟩

theorem render_cons (p : Piece) (ps : List Piece) (final : List Char) :
    render (p :: ps) final = p.gap ++ (p.text ++ render ps final) := by
  simp [render, chars]

theorem Stands.kind_ne_eof (stands : p.Stands regexAllowed rest) : p.kind ≠ .eof :=
  let ⟨_, _, _, form⟩ := stands.lexes.form 0
  form.kind_ne_eof

theorem Stands.text_ne_nil (stands : p.Stands regexAllowed rest) : p.text ≠ [] := by
  obtain ⟨c, tail, parts, _⟩ := stands.lexes.form 0
  rw [parts]
  exact List.cons_ne_nil c tail

section Fits

variable {qs : List Piece} {final : List Char}

theorem Fits.stands (fits : Fits regexAllowed ps final) :
    ∀ p ∈ ps, ∃ regexAllowed rest, p.Stands regexAllowed rest := by
  induction ps generalizing regexAllowed with
  | nil => simp
  | cons p ps ih =>
    obtain ⟨stands, fits⟩ := fits
    exact List.forall_mem_cons.2 ⟨⟨_, _, stands⟩, ih fits⟩

theorem Fits.kind_ne_eof (fits : Fits regexAllowed ps final) : ∀ p ∈ ps, p.kind ≠ .eof := by
  intro p mem
  obtain ⟨_, _, stands⟩ := fits.stands p mem
  exact stands.kind_ne_eof

theorem Fits.finalGap (fits : Fits regexAllowed ps final) : FinalGap final := by
  induction ps generalizing regexAllowed with
  | nil => exact fits
  | cons p ps ih => exact ih fits.2

theorem Fits.right (fits : Fits regexAllowed (ps ++ qs) final) :
    ∃ regexAllowed', Fits regexAllowed' qs final := by
  induction ps generalizing regexAllowed with
  | nil => exact ⟨_, fits⟩
  | cons p ps ih => exact ih fits.2

end Fits

theorem newline_eq {b : Bool} (isGap : Gap b p.gap) : p.newline = b := by
  rw [newline, isGap.trivia_eq]

end Piece

/-! ## Reading one token -/

namespace Lexer

open Token

/-- A piece at the front of the text is read as its token. -/
theorem next_of_stands {lexer : Lexer} {p : Piece} {rest : List Char}
    (text : lexer.rest = p.gap ++ (p.text ++ rest))
    (stands : p.Stands lexer.regexAllowed rest) :
    lexer.next = (.ok (p.token lexer.offset), ⟨rest, lexer.offset + p.bytes,
      lexer.comments ++ (trivia lexer.offset p.gap).comments, p.regexBehind⟩) := by
  have passed : trivia lexer.offset lexer.rest =
      ⟨p.gap.length, (trivia lexer.offset p.gap).comments, p.newline, none⟩ :=
    (congrArg (trivia lexer.offset) text).trans
      ((stands.gap.trivia_solid _ stands.firm).trans (stands.gap.trivia_eq _))
  obtain ⟨c, tail, parts, form⟩ := stands.lexes.form (lexer.offset + Text.byteLength p.gap)
  have scan := form.lexeme
  have whole : (c :: (tail ++ rest)).take p.text.length = p.text := by
    rw [← List.cons_append, ← parts, List.take_left]
  have behind : (c :: (tail ++ rest)).drop p.text.length = rest := by
    rw [← List.cons_append, ← parts, List.drop_left]
  have ahead : p.text ++ rest = c :: (tail ++ rest) := by rw [parts, List.cons_append]
  rw [next, passed]
  simp only [skip, advance, text, List.take_left, List.drop_left, tokenHere, ahead, scan, Scan.done,
    whole, behind]
  simp [Piece.token, Piece.bytes, Piece.chars, Piece.regexBehind, Nat.add_assoc]

/-- The end of the source is read as the end mark. -/
theorem next_of_finalGap {lexer : Lexer} (final : FinalGap lexer.rest) :
    lexer.next = (.ok (Piece.endMark lexer.offset lexer.rest),
      ⟨[], lexer.offset + Text.byteLength lexer.rest,
        lexer.comments ++ (trivia lexer.offset lexer.rest).comments, false⟩) := by
  obtain ⟨length, closed⟩ := final.trivia_eq lexer.offset
  simp only [next, closed, skip, advance, length, List.take_length, List.drop_length, tokenHere,
    Piece.endMark]

/-- What is read is the end mark behind a final gap, or the token of a piece. -/
theorem next_cases {lexer behind : Lexer} {token : Token} (read : lexer.next = (.ok token, behind)) :
    FinalGap lexer.rest ∨ ∃ (p : Piece) (rest : List Char),
      lexer.rest = p.gap ++ (p.text ++ rest) ∧ p.Stands lexer.regexAllowed rest := by
  unfold next at read
  dsimp only at read
  split at read
  · cases read
  · next closed =>
    obtain ⟨firm, gap, parts, isGap⟩ := leads_of_trivia lexer.offset lexer.rest closed
    have here : (lexer.skip (trivia lexer.offset lexer.rest)).rest =
      lexer.rest.drop (trivia lexer.offset lexer.rest).length := rfl
    generalize lexer.rest.drop (trivia lexer.offset lexer.rest).length = ahead at firm parts isGap here
    unfold tokenHere at read
    rw [here] at read
    cases ahead with
    | nil =>
      left
      rw [parts, List.append_nil]
      obtain isGap | ⟨_, final⟩ := isGap
      · exact ⟨_, gap, [], isGap, (List.append_nil gap).symm, .inl rfl⟩
      · exact final
    | cons c rest =>
      right
      have isGap : Gap _ gap := isGap.resolve_right (by simp)
      dsimp only at read
      generalize scan : lexeme _ _ c rest = found at read
      obtain ⟨n, _ | kind⟩ := found
      · cases read
      · have form := LexemeForm.of_lexeme scan
        have bound := form.length_le
        have positive : 0 < n := by
          have := lexeme_length_pos (by rw [scan] : (lexeme _ _ c rest).result = .ok kind)
          rwa [scan] at this
        obtain ⟨n, rfl⟩ : ∃ m, n = m + 1 := ⟨n - 1, by omega⟩
        have length : ((c :: rest).take (n + 1)).length = n + 1 := List.length_take_of_le bound
        refine ⟨⟨gap, kind, (c :: rest).take (n + 1)⟩, (c :: rest).drop (n + 1), ?_, ⟨?_, ?_, ?_⟩⟩
        · rwa [List.take_append_drop]
        · rwa [Piece.newline_eq isGap]
        · refine ⟨c, rest.take n, (lexer.skip (trivia lexer.offset lexer.rest)).offset,
            List.take_succ_cons, ?_⟩
          rw [List.drop_succ_cons, List.take_append_drop, length]
          exact form
        · rwa [List.take_append_drop]

end Lexer

/-! ## Reading all tokens -/

namespace TokenRow

open Token

variable {ps : List Piece} {final : List Char} {lexer : Lexer} {row : TokenRow}

/-- **A row of pieces that fits is read as its tokens.** -/
theorem ofLexer_of_fits (text : lexer.rest = Piece.render ps final)
    (fits : Piece.Fits lexer.regexAllowed ps final) :
    ofLexer lexer = .ok (Piece.row lexer.offset lexer.comments ps final) := by
  induction ps generalizing lexer with
  | nil =>
    have read := @Lexer.next_of_finalGap lexer (text ▸ fits)
    rw [ofLexer.eq_def]
    split
    · next error _ failed => rw [failed] at read; cases read
    · next token _ found =>
      rw [found] at read
      cases read
      obtain rfl : lexer.rest = final := text
      exact dif_pos rfl
  | cons p ps ih =>
    rw [Piece.render_cons] at text
    obtain ⟨stands, fits⟩ := fits
    have read := Lexer.next_of_stands text stands
    have rest := @ih ⟨Piece.render ps final, lexer.offset + p.bytes,
      lexer.comments ++ (trivia lexer.offset p.gap).comments, p.regexBehind⟩ rfl fits
    rw [ofLexer.eq_def]
    split
    · next error _ failed => rw [failed] at read; cases read
    · next token _ found =>
      rw [found] at read
      cases read
      rw [dif_neg (show ¬(p.token lexer.offset).kind = .eof from stands.kind_ne_eof)]
      rw [rest]
      simp [Piece.row, Piece.comments, Nat.add_assoc]

theorem exists_fits_of_ofLexer (read : ofLexer lexer = .ok row) :
    ∃ ps final, lexer.rest = Piece.render ps final ∧ Piece.Fits lexer.regexAllowed ps final := by
  fun_induction ofLexer lexer generalizing row with
  | case1 => cases read
  | case2 lexer token behind found isEnd =>
      obtain final | ⟨p, rest, text, stands⟩ := Lexer.next_cases found
      · exact ⟨[], lexer.rest, rfl, final⟩
      · rw [Lexer.next_of_stands text stands] at found
        cases found
        exact absurd isEnd stands.kind_ne_eof
  | case3 => cases read
  | case4 lexer token behind found notEnd _ row' more ih =>
      obtain final | ⟨p, rest, text, stands⟩ := Lexer.next_cases found
      · exact ⟨[], lexer.rest, rfl, final⟩
      · rw [Lexer.next_of_stands text stands] at found
        cases found
        obtain ⟨ps, final, behind, fits⟩ := ih more
        obtain rfl : rest = Piece.render ps final := behind
        exact ⟨p :: ps, final, text.trans (Piece.render_cons ..).symm, stands, fits⟩

/-- **What can be read is a row of pieces that fits.** -/
theorem fits_of_ofLexer (read : ofLexer lexer = .ok row) :
    ∃ ps final, lexer.rest = Piece.render ps final ∧ Piece.Fits lexer.regexAllowed ps final ∧
      row = Piece.row lexer.offset lexer.comments ps final := by
  obtain ⟨ps, final, text, fits⟩ := exists_fits_of_ofLexer read
  rw [ofLexer_of_fits text fits] at read
  exact ⟨ps, final, text, fits, (Except.ok.inj read).symm⟩

theorem ofString_of_fits (fits : Piece.Fits true ps final) :
    ofString (String.ofList (Piece.render ps final)) = .ok (Piece.row 0 [] ps final) :=
  ofLexer_of_fits (String.toList_ofList ..) fits

theorem fits_of_ofString {source : String} (read : ofString source = .ok row) :
    ∃ ps final, source.toList = Piece.render ps final ∧ Piece.Fits true ps final ∧
      row = Piece.row 0 [] ps final :=
  fits_of_ofLexer read

end TokenRow

end TidyScript
