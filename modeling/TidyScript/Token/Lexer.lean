import TidyScript.Token.Word
import TidyScript.Token.Numeral
import TidyScript.Token.Quoted
import TidyScript.Token.Template
import TidyScript.Token.Regex
import TidyScript.Token.Punctuator
import TidyScript.Token.Trivia

/-!
# From text to tokens

A lexer is a place in a source: the text that is left, its byte offset, the
comments passed so far, and whether a slash would open a regular expression here.
`Lexer.next` reads one token. It always answers with the place to go on from, also
when it meets an error, so that reading can be resumed. `tokenize` reads them all
and stops at the first error.
-/

namespace TidyScript

/-- A place in a source text. -/
structure Lexer where
  /-- The text that is left. -/
  rest : List Char
  /-- The byte offset of that text. -/
  offset : Nat
  /-- The comments passed so far. -/
  comments : List Comment
  /-- Would a slash open a regular expression? -/
  regexAllowed : Bool

namespace Lexer

open Token

/-- The start of a source text. A slash at the start opens a regular
expression. -/
def ofString (source : String) : Lexer :=
  ⟨source.toList, 0, [], true⟩

/-- Moves on by a number of characters. -/
def advance (lexer : Lexer) (count : Nat) : Lexer :=
  { lexer with
    rest := lexer.rest.drop count
    offset := lexer.offset + Text.byteLength (lexer.rest.take count) }

/-- Does a slash open a regular expression behind this token? It does where an
operand is due. -/
def regexAllowedAfter (kind : TokenKind) (text : String) : Bool :=
  match kind with
  | .punctuator => !closers.contains text
  | .keyword => keywordsBeforeRegex.contains text
  | _ => false

/-- The lexeme at the front of the text `c :: rest`, which starts at byte offset
`start`. -/
def lexeme (regexAllowed : Bool) (start : Nat) (c : Char) (rest : List Char) : Scan TokenKind :=
  if isWordStart c then
    let length := 1 + wordTail rest
    .done length (wordKind (String.ofList ((c :: rest).take length)))
  else if c.isDigit || (c = '.' && rest.head?.any Char.isDigit) then
    .done (numeralLength (c :: rest)) .number
  else if c = '"' || c = '\'' then
    (quoted c start (c :: rest)).map .string
  else if c = '\x60' then
    (template start (c :: rest)).map fun _ => .template
  else if c = '/' && regexAllowed then
    (regex start (c :: rest)).map fun _ => .regex
  else
    match punctuator? (c :: rest) with
    | some text => .done text.length .punctuator
    | none => .fail 0 (.unexpectedChar c start)

/-- Reads the token that starts right here, or the error that stands in its
place, and moves on to the place behind it. An unexpected character is not
passed. -/
def tokenHere (lexer : Lexer) (lineBreak : Bool) : Except LexError Token × Lexer :=
  match lexer.rest with
  | [] =>
    (.ok ⟨.eof, "", ⟨lexer.offset, lexer.offset⟩, lineBreak⟩, { lexer with regexAllowed := false })
  | c :: rest =>
    let scan := lexeme lexer.regexAllowed lexer.offset c rest
    let behind := lexer.advance scan.length
    match scan.result with
    | .error error => (.error error, behind)
    | .ok kind =>
      let text := String.ofList ((c :: rest).take scan.length)
      (.ok ⟨kind, text, ⟨lexer.offset, behind.offset⟩, lineBreak⟩,
        { behind with regexAllowed := regexAllowedAfter kind text })

/-- The place behind the white space and comments that come next, an unclosed
comment not passed. -/
def skip (lexer : Lexer) (gap : Trivia) : Lexer :=
  { lexer.advance gap.length with comments := lexer.comments ++ gap.comments }

/-- Reads the next token, or the error that stands in its place, and moves on to
the place behind it. -/
def next (lexer : Lexer) : Except LexError Token × Lexer :=
  let gap := trivia lexer.offset lexer.rest
  match gap.unclosed with
  | some start => (.error (.unterminatedComment start), lexer.skip gap)
  | none => (lexer.skip gap).tokenHere gap.lineBreak

/-! ## Progress -/

/-- A lexeme takes at least one character. -/
theorem lexeme_length_pos {regexAllowed : Bool} {start : Nat} {c : Char} {rest : List Char}
    {kind : TokenKind} (h : (lexeme regexAllowed start c rest).result = .ok kind) :
    0 < (lexeme regexAllowed start c rest).length := by
  have one_add_pos (n : Nat) : 0 < 1 + n := Nat.lt_of_lt_of_le Nat.one_pos (Nat.le_add_right _ _)
  unfold lexeme at h ⊢
  split
  · exact one_add_pos _
  · split
    · next number =>
      refine numeralLength_pos ?_ rest
      simp only [Bool.or_eq_true, Bool.and_eq_true, decide_eq_true_eq] at number
      exact number.imp id And.left
    · split
      · exact one_add_pos _
      · split
        · exact one_add_pos _
        · split
          · exact regex_length_pos _ _
          · split
            · next text punct => exact length_pos_of_punctuator? punct
            · next punct =>
              simp_all [Scan.fail]

theorem advance_rest_length (lexer : Lexer) (count : Nat) :
    (lexer.advance count).rest.length = lexer.rest.length - count := by
  simp [advance]

theorem tokenHere_rest_length_lt {lexer : Lexer} {lineBreak : Bool} {token : Token}
    (h : (lexer.tokenHere lineBreak).1 = .ok token) (notEnd : token.kind ≠ .eof) :
    (lexer.tokenHere lineBreak).2.rest.length < lexer.rest.length := by
  unfold tokenHere at h ⊢
  split at h
  · cases h
    exact absurd rfl notEnd
  · next c rest split =>
    dsimp only at h ⊢
    split at h
    · cases h
    · next kind scanned =>
      have positive := lexeme_length_pos scanned
      have shorter := lexer.advance_rest_length
        (lexeme lexer.regexAllowed lexer.offset c rest).length
      rw [split, List.length_cons] at shorter
      rw [split]
      simp only [shorter, List.length_cons]
      omega

/-- Reading a token other than the end mark leaves less text. -/
theorem next_rest_length_lt {lexer : Lexer} {token : Token}
    (h : lexer.next.1 = .ok token) (notEnd : token.kind ≠ .eof) :
    lexer.next.2.rest.length < lexer.rest.length := by
  unfold next at h ⊢
  dsimp only at h ⊢
  split at h
  · cases h
  · next closed =>
    have token := tokenHere_rest_length_lt h notEnd
    have gap := lexer.advance_rest_length (trivia lexer.offset lexer.rest).length
    simp only [skip] at token ⊢
    omega

end Lexer

/-- A source as tokens: all tokens but the end mark, the end mark, and the
comments. -/
structure TokenRow where
  tokens : List Token
  stop : Token
  comments : List Comment

namespace TokenRow

/-- Reads all tokens from a place on. -/
def ofLexer (lexer : Lexer) : Except LexError TokenRow :=
  match h : lexer.next with
  | (.error error, _) => .error error
  | (.ok token, behind) =>
    if notEnd : token.kind = .eof then .ok ⟨[], token, behind.comments⟩
    else
      have : behind.rest.length < lexer.rest.length := by
        have := Lexer.next_rest_length_lt (by rw [h] : lexer.next.1 = .ok token) notEnd
        rwa [h] at this
      match ofLexer behind with
      | .error error => .error error
      | .ok row => .ok { row with tokens := token :: row.tokens }
termination_by lexer.rest.length

/-- Reads all tokens of a source. -/
def ofString (source : String) : Except LexError TokenRow :=
  ofLexer (Lexer.ofString source)

end TokenRow

end TidyScript
