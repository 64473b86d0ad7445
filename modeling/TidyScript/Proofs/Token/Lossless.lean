import TidyScript.Proofs.Text.Answer
import TidyScript.Proofs.Text.Boundary
import TidyScript.Proofs.Token.Piece

/-!
# Nothing is lost in reading tokens

Reading a source takes it apart into tokens, comments and white space. A text is strung from parts
when it holds them in order, each at the place that its span names, and nothing but white space
around them. What is passed over between two tokens is strung from the comments found there, and so
the whole source is strung from its tokens and comments.

All that can be said about places follows from this: the parts stand one behind the other, every
character outside of them is white space, and putting them together again with that white space
gives the source.
-/

namespace TidyScript

open Text (byteLength Boundary Shows)

/-- A token or a comment. -/
inductive Lexical where
  | token (value : Token)
  | comment (value : Comment)

namespace Lexical

/-- Where the part stands. -/
def span : Lexical → Span
  | token value => value.span
  | comment value => value.span

/-- The part as written. -/
def text : Lexical → String
  | token value => value.text
  | comment value => value.text

/-- The token that the part is. -/
def token? : Lexical → Option Token
  | token value => some value
  | comment _ => none

/-- The comment that the part is. -/
def comment? : Lexical → Option Comment
  | token _ => none
  | comment value => some value

/-- Can the character stand between two parts? -/
def isSpace (c : Char) : Bool :=
  Text.isBlank c || c = '\ufeff'

/-- From a byte offset on, the text holds the parts in order, each at its place, and nothing but
white space around them. -/
inductive Strung : (offset : Nat) → List Lexical → List Char → Prop where
  | nil {offset : Nat} : Strung offset [] []
  | space {offset : Nat} {parts : List Lexical} {c : Char} {cs : List Char}
      (space : isSpace c = true) (rest : Strung (offset + c.utf8Size) parts cs) :
      Strung offset parts (c :: cs)
  | part {offset : Nat} {part : Lexical} {parts : List Lexical} {cs : List Char}
      (written : part.text.toList ≠ [])
      (place : part.span = ⟨offset, offset + byteLength part.text.toList⟩)
      (rest : Strung (offset + byteLength part.text.toList) parts cs) :
      Strung offset (part :: parts) (part.text.toList ++ cs)

namespace Strung

variable {offset : Nat} {parts others : List Lexical} {cs ds : List Char}

theorem append (first : Strung offset parts cs)
    (second : Strung (offset + byteLength cs) others ds) :
    Strung offset (parts ++ others) (cs ++ ds) := by
  induction first with
  | nil => simpa using second
  | space space _ ih => exact .space space (ih (by simpa [Nat.add_assoc] using second))
  | part written place _ ih =>
    rw [List.append_assoc]
    exact .part written place (ih (by simpa [Nat.add_assoc] using second))

/-! ## Where the parts stand -/

/-- The parts stand between the ends of the text. -/
theorem bounds (strung : Strung offset parts cs) : ∀ part ∈ parts,
    offset ≤ part.span.start ∧ part.span.start < part.span.stop ∧
      part.span.stop ≤ offset + byteLength cs := by
  induction strung with
  | nil => simp
  | @space offset parts c cs _ _ ih =>
    intro part mem
    have := ih part mem
    simp only [Text.byteLength_cons]
    omega
  | @part offset part parts cs written place _ ih =>
    have positive := Text.byteLength_pos written
    simp only [Text.byteLength_append]
    refine List.forall_mem_cons.2 ⟨by simp only [place]; omega, fun other mem => ?_⟩
    have := ih other mem
    omega

/-- The parts stand one behind the other. -/
theorem pairwise (strung : Strung offset parts cs) :
    parts.Pairwise fun a b => a.span.stop ≤ b.span.start := by
  induction strung with
  | nil => exact .nil
  | space _ _ ih => exact ih
  | part _ place rest ih =>
    refine List.pairwise_cons.2 ⟨fun other mem => ?_, ih⟩
    rw [place]
    exact (rest.bounds other mem).1

/-- The parts have the texts that the source has at their places. -/
theorem shows {source : String} {front back : List Char} (strung : Strung (byteLength front) parts cs)
    (text : source.toList = front ++ cs ++ back) :
    ∀ part ∈ parts, Shows source part.span part.text := by
  generalize place : byteLength front = offset at strung
  induction strung generalizing front with
  | nil => simp
  | @space offset parts c cs _ _ ih =>
    exact @ih (front ++ [c]) (by simpa using text) (by simp [place])
  | @part offset part parts cs _ span _ ih =>
    refine List.forall_mem_cons.2 ⟨⟨front, cs ++ back, by simpa using text, by rw [span, place]⟩, ?_⟩
    exact @ih (front ++ part.text.toList) (by simpa using text) (by simp [place])

/-- A character outside of all parts is white space. -/
theorem isSpace_of_outside (strung : Strung offset parts cs) {front back : List Char} {c : Char}
    (split : cs = front ++ c :: back)
    (outside : ∀ part ∈ parts, offset + byteLength front < part.span.start ∨
      part.span.stop ≤ offset + byteLength front) : isSpace c = true := by
  induction strung generalizing front with
  | nil => simp at split
  | @space offset parts d cs space _ ih =>
    cases front with
    | nil =>
      obtain ⟨rfl, _⟩ := List.cons.inj split
      exact space
    | cons d' front =>
      rw [List.cons_append, List.cons.injEq] at split
      obtain ⟨rfl, split⟩ := split
      exact ih split (by simpa [Nat.add_assoc] using outside)
  | @part offset part parts cs _ place _ ih =>
    -- The character stands behind the first part, since it does not stand in it.
    rw [List.forall_mem_cons, place] at outside
    have further : byteLength part.text.toList ≤ byteLength front := by
      have := outside.1
      dsimp only at this
      omega
    obtain ⟨middle, rfl, behind⟩ := Text.exists_between split further
    refine ih behind fun other mem => ?_
    simpa [Nat.add_assoc] using outside.2 other mem

/-- The parts and white space in front of each and behind the last make up the text. -/
theorem exists_gaps (strung : Strung offset parts cs) :
    ∃ (strands : List (List Char × Lexical)) (final : List Char), strands.map Prod.snd = parts ∧
      (∀ strand ∈ strands, ∀ c ∈ strand.1, isSpace c = true) ∧ (∀ c ∈ final, isSpace c = true) ∧
      cs = strands.flatMap (fun strand => strand.1 ++ strand.2.text.toList) ++ final := by
  induction strung with
  | nil => exact ⟨[], [], rfl, by simp, by simp, rfl⟩
  | @space offset parts c cs space _ ih =>
    obtain ⟨strands, final, same, gaps, behind, rfl⟩ := ih
    cases strands with
    | nil => exact ⟨[], c :: final, same, by simp, List.forall_mem_cons.2 ⟨space, behind⟩, rfl⟩
    | cons strand strands =>
      rw [List.forall_mem_cons] at gaps
      exact ⟨(c :: strand.1, strand.2) :: strands, final, same,
        List.forall_mem_cons.2 ⟨List.forall_mem_cons.2 ⟨space, gaps.1⟩, gaps.2⟩, behind, rfl⟩
  | @part offset part parts cs _ _ _ ih =>
    obtain ⟨strands, final, same, gaps, behind, rfl⟩ := ih
    exact ⟨([], part) :: strands, final, by simp [same],
      List.forall_mem_cons.2 ⟨by simp, gaps⟩, behind, by simp⟩

end Strung

end Lexical

/-! ## Between two tokens -/

open Lexical (Strung isSpace)

theorem isSpace_of_isLineBreak {c : Char} (breaks : Token.isLineBreak c = true) :
    isSpace c = true := by
  simp only [Token.isLineBreak, Bool.or_eq_true, decide_eq_true_eq] at breaks
  rcases breaks with ((rfl | rfl) | rfl) | rfl <;> decide

/-- A comment is strung into the text in front of what is passed over behind it. -/
theorem Lexical.Strung.afterComment {offset : Nat} {text behind : List Char} {found : Token.Trivia}
    (written : text ≠ [])
    (strung : Strung (offset + byteLength text) (found.comments.map .comment)
      (behind.take found.length)) (block : Bool) :
    Strung offset ((found.afterComment block offset text).comments.map .comment)
      ((text ++ behind).take (found.afterComment block offset text).length) := by
  simp only [Token.Trivia.afterComment, Token.Trivia.after, List.map_cons, List.take_append,
    Nat.add_sub_cancel_left, List.take_of_length_le (Nat.le_add_right _ _)]
  let comment : Lexical :=
    .comment ⟨block, String.ofList text, ⟨offset, offset + byteLength text⟩⟩
  have shown : comment.text.toList = text := String.toList_ofList
  have whole : Strung offset (comment :: found.comments.map .comment)
      (comment.text.toList ++ behind.take found.length) :=
    .part (by rwa [shown]) (by rw [shown]; rfl) (by rwa [shown])
  rwa [shown] at whole

/-- **What is passed over between two tokens is strung from the comments found there.** -/
theorem Token.strung_trivia (offset : Nat) (cs : List Char) :
    Strung offset ((trivia offset cs).comments.map .comment)
      (cs.take (trivia offset cs).length) := by
  induction offset, cs using trivia_induction with
  | firm offset cs firm => rw [trivia_of_solid offset firm]; exact .nil
  | lineBreak offset c rest breaks ih =>
    rw [trivia_of_isLineBreak breaks]
    simp only [Trivia.after, Nat.add_comm 1, List.take_succ_cons]
    exact .space (isSpace_of_isLineBreak breaks) ih
  | blank offset c rest stays blank ih =>
    rw [trivia_of_isBlank stays blank]
    simp only [Trivia.after, Nat.add_comm 1, List.take_succ_cons]
    exact .space blank ih
  | comment offset block text behind comment ih =>
    rw [trivia_of_isComment comment]
    exact ih.afterComment (by cases comment <;> simp) block
  | unclosed offset body unclosed => rw [trivia_of_unclosed unclosed]; exact .nil

/-- The comments of a text stand in it. -/
theorem Token.bounds_of_mem_trivia {offset : Nat} {cs : List Char} {comment : Comment}
    (mem : comment ∈ (trivia offset cs).comments) :
    offset ≤ comment.span.start ∧ comment.span.start < comment.span.stop ∧
      comment.span.stop ≤ offset + byteLength cs := by
  have bounds := (strung_trivia offset cs).bounds _ (List.mem_map_of_mem mem)
  have parts := congrArg byteLength (List.take_append_drop (trivia offset cs).length cs)
  rw [Text.byteLength_append] at parts
  have inside : comment.span.stop ≤ _ := bounds.2.2
  exact ⟨bounds.1, bounds.2.1, by omega⟩

/-! ## Reading -/

theorem Lexical.mem_filterMap_token? {parts : List Lexical} {value : Token} :
    value ∈ parts.filterMap Lexical.token? ↔ .token value ∈ parts := by
  refine List.mem_filterMap.trans ⟨?_, fun mem => ⟨_, mem, rfl⟩⟩
  rintro ⟨_ | _, mem, is⟩ <;> cases is
  exact mem

theorem Lexical.mem_filterMap_comment? {parts : List Lexical} {value : Comment} :
    value ∈ parts.filterMap Lexical.comment? ↔ .comment value ∈ parts := by
  refine List.mem_filterMap.trans ⟨?_, fun mem => ⟨_, mem, rfl⟩⟩
  rintro ⟨_ | _, mem, is⟩ <;> cases is
  exact mem

theorem Lexical.filterMap_token?_comments (comments : List Comment) :
    (comments.map Lexical.comment).filterMap Lexical.token? = [] := by
  rw [List.filterMap_map]
  exact List.filterMap_eq_nil_iff.2 fun _ _ => rfl

theorem Lexical.filterMap_comment?_comments (comments : List Comment) :
    (comments.map Lexical.comment).filterMap Lexical.comment? = comments := by
  rw [List.filterMap_map]
  exact List.filterMap_some

namespace Piece

/-- The tokens of pieces and the comments between them and in `final` behind them, in order. -/
def parts (final : List Char) (offset : Nat) : List Piece → List Lexical
  | [] => (Token.trivia offset final).comments.map .comment
  | p :: ps => (Token.trivia offset p.gap).comments.map .comment ++
      .token (p.token offset) :: parts final (offset + p.bytes) ps

variable {regexAllowed : Bool} {ps : List Piece} {final : List Char}

theorem filterMap_token?_parts (offset : Nat) :
    (parts final offset ps).filterMap Lexical.token? = tokens offset ps := by
  induction ps generalizing offset with
  | nil => exact Lexical.filterMap_token?_comments _
  | cons p ps ih =>
    rw [parts, List.filterMap_append, Lexical.filterMap_token?_comments, List.nil_append]
    exact congrArg (p.token offset :: ·) (ih _)

theorem filterMap_comment?_parts (offset : Nat) :
    (parts final offset ps).filterMap Lexical.comment? =
      comments offset ps ++ (Token.trivia (offset + width ps) final).comments := by
  induction ps generalizing offset with
  | nil => exact Lexical.filterMap_comment?_comments _
  | cons p ps ih =>
    rw [parts, List.filterMap_append, Lexical.filterMap_comment?_comments, comments, width_cons,
      List.append_assoc, ← Nat.add_assoc, ← ih]
    rfl

theorem comments_append (offset : Nat) (ps qs : List Piece) :
    comments offset (ps ++ qs) = comments offset ps ++ comments (offset + width ps) qs := by
  induction ps generalizing offset with
  | nil => rfl
  | cons p ps ih => simp [comments, ih, Nat.add_assoc]

theorem bounds_of_mem_comments {offset : Nat} {ps : List Piece} {comment : Comment}
    (mem : comment ∈ comments offset ps) :
    offset ≤ comment.span.start ∧ comment.span.start < comment.span.stop ∧
      comment.span.stop ≤ offset + width ps := by
  induction ps generalizing offset with
  | nil => cases mem
  | cons p ps ih =>
    rw [width_cons, bytes, chars, Text.byteLength_append]
    rcases List.mem_append.1 mem with here | later
    · have := Token.bounds_of_mem_trivia here
      omega
    · have := ih later
      rw [bytes, chars, Text.byteLength_append] at this
      omega

/-- **Pieces that fit are strung from their tokens and the comments between them.** -/
theorem Fits.strung (fits : Fits regexAllowed ps final) (offset : Nat) :
    Strung offset (parts final offset ps) (render ps final) := by
  induction ps generalizing regexAllowed offset with
  | nil =>
    have gap := Token.strung_trivia offset final
    rwa [(fits.finalGap.trivia_eq offset).1, List.take_length] at gap
  | cons p ps ih =>
    obtain ⟨stands, fits⟩ := fits
    have gap := Token.strung_trivia offset p.gap
    rw [stands.gap.trivia_eq, List.take_length, ← stands.gap.trivia_eq] at gap
    rw [render_cons]
    refine gap.append ?_
    have shown : (Lexical.token (p.token offset)).text.toList = p.text := String.toList_ofList
    have behind : offset + byteLength p.gap + byteLength p.text = offset + p.bytes := by
      rw [bytes, chars, Text.byteLength_append, Nat.add_assoc]
    have whole : Strung (offset + byteLength p.gap)
        (.token (p.token offset) :: parts final (offset + p.bytes) ps)
        ((Lexical.token (p.token offset)).text.toList ++ render ps final) := by
      refine .part (by rw [shown]; exact stands.text_ne_nil) ?_ ?_
      · rw [shown, behind]
        rfl
      · rw [shown, behind]
        exact ih fits _
    rwa [shown] at whole

end Piece

namespace TokenRow

/-- A source is strung from its tokens and comments. -/
theorem exists_strung {source : String} {row : TokenRow} (read : ofString source = .ok row) :
    ∃ parts, Strung 0 parts source.toList ∧ parts.filterMap Lexical.token? = row.tokens ∧
      parts.filterMap Lexical.comment? = row.comments ∧ row.stop.kind = .eof ∧ row.stop.text = "" ∧
      row.stop.span = ⟨byteLength source.toList, byteLength source.toList⟩ := by
  obtain ⟨ps, final, text, fits, rfl⟩ := fits_of_ofString read
  have ends : 0 + Piece.width ps + byteLength final = byteLength source.toList := by
    rw [text, Piece.render, Text.byteLength_append, Nat.zero_add]
    rfl
  refine ⟨_, text ▸ fits.strung 0, Piece.filterMap_token?_parts 0,
    Piece.filterMap_comment?_parts 0, rfl, rfl, ?_⟩
  exact congrArg (fun place => Span.mk place place) ends

/-! ## The whole source -/

/-- The parts are the tokens and comments of the row, and with white space they make up the
source. -/
structure Lossless (source : String) (row : TokenRow) (parts : List Lexical) : Prop where
  tokens : parts.filterMap Lexical.token? = row.tokens
  comments : parts.filterMap Lexical.comment? = row.comments
  shown : ∀ part ∈ parts, Boundary source part.span.start ∧ Boundary source part.span.stop ∧
    Text.cut source part.span = .ok part.text
  written : ∀ part ∈ parts, part.span.start < part.span.stop
  ended : row.stop.kind = .eof ∧ row.stop.text = "" ∧
    row.stop.span = ⟨byteLength source.toList, byteLength source.toList⟩
  inOrder : (parts ++ [Lexical.token row.stop]).Pairwise fun a b =>
    a.span.start < b.span.start ∧ a.span.stop ≤ b.span.start
  outside : ∀ front c back, source.toList = front ++ c :: back →
    (∀ part ∈ parts, byteLength front < part.span.start ∨ part.span.stop ≤ byteLength front) →
      Text.isBlank c = true ∨ c = '\ufeff'
  rebuilt : ∃ (strands : List (List Char × Lexical)) (final : List Char),
    strands.map Prod.snd = parts ∧
      (∀ strand ∈ strands, ∀ c ∈ strand.1, Text.isBlank c = true ∨ c = '\ufeff') ∧
      (∀ c ∈ final, Text.isBlank c = true ∨ c = '\ufeff') ∧
      source.toList = strands.flatMap (fun strand => strand.1 ++ strand.2.text.toList) ++ final

/-- **Nothing is lost in reading tokens.** Every token and every comment has the text that the
source has at its place, and none is empty. They stand one behind the other, with the end mark at
the end of the source. What stands outside of them is white space or a byte order mark, and with it
they make up the source. -/
theorem lossless_of_ofString {source : String} {row : TokenRow} (read : ofString source = .ok row) :
    ∃ parts, row.Lossless source parts := by
  obtain ⟨parts, strung, tokens, comments, isEnd, stopText, stopSpan⟩ := exists_strung read
  have shows := @Strung.shows _ _ source [] [] strung (by simp)
  have written : ∀ part ∈ parts, part.span.start < part.span.stop :=
    fun part mem => (strung.bounds part mem).2.1
  refine ⟨parts, tokens, comments, fun part mem => ?_, written,
    ⟨isEnd, stopText, stopSpan⟩, ?_, ?_, ?_⟩
  · exact ⟨(shows part mem).boundary_start, (shows part mem).boundary_stop, (shows part mem).cut⟩
  · refine List.pairwise_append.2 ⟨?_, List.pairwise_singleton .., fun part mem last isLast => ?_⟩
    · refine strung.pairwise.imp_of_mem fun {a b} memA _ le => ⟨?_, le⟩
      exact Nat.lt_of_lt_of_le (written a memA) le
    · obtain rfl := List.mem_singleton.1 isLast
      obtain ⟨_, some, within⟩ := strung.bounds part mem
      have last : (Lexical.token row.stop).span.start = byteLength source.toList := by
        rw [Lexical.span, stopSpan]
      omega
  · intro front c back split apart
    have space := strung.isSpace_of_outside split (by simpa using apart)
    simpa [isSpace] using space
  · simpa [isSpace] using strung.exists_gaps

/-- A byte order mark, comments of both kinds, characters of several bytes and a brace inside a
template. -/
theorem lossless_of_ofString_mixed :
    ∃ row parts, ofString "\ufeff/* é */x=\x60$\x7b'\x7d'\x7d𝒳\x60 / 0x1F// ß" = .ok row ∧
      row.tokens.length = 5 ∧ row.comments.length = 2 ∧
      row.Lossless "\ufeff/* é */x=\x60$\x7b'\x7d'\x7d𝒳\x60 / 0x1F// ß" parts := by
  have checked : (ofString "\ufeff/* é */x=\x60$\x7b'\x7d'\x7d𝒳\x60 / 0x1F// ß").toOption.any
      (fun row => row.tokens.length = 5 ∧ row.comments.length = 2) = true := by decide +kernel
  obtain ⟨row, read, sizes⟩ := exists_ok_of_any checked
  have sizes := of_decide_eq_true sizes
  obtain ⟨parts, lossless⟩ := lossless_of_ofString read
  exact ⟨row, parts, read, sizes.1, sizes.2, lossless⟩

end TokenRow

end TidyScript
