import TidyScript.Proofs.Phrase.Sentence
import TidyScript.Proofs.Token.Respacing

/-!
# Pieces side by side

Whether a piece is read as its token depends on what stands behind it, but only through the
first characters there. So it is a matter of neighbours: two pieces meet when the first one is
read as its token in front of the second, whatever comes behind that. A row of pieces fits when
all neighbours meet, and in a row of plain words that fits they do.

New neighbours are met at signs that bind loosely, such as `&&`, `?`, comparisons and parentheses.
The first word of a phrase can stand behind every such sign, and the last one in front of it. The
operators that are words need a gap in front of them.
-/

namespace TidyScript

open Token Grammar

namespace Piece

variable {p : Piece} {regexAllowed : Bool} {rest : List Char}

/-- The way in which a slash at the front of the piece has to be taken. -/
def flag (p : Piece) : Bool :=
  p.text.head? ≠ some '/'

/-- The piece is a gap and a lexeme. -/
structure Whole (p : Piece) : Prop where
  gap : Gap p.newline p.gap
  lexes : ∃ rest, Lexes p.flag p.kind p.text rest
  firm : solid p.text = true

/-- In front of `rest`, the piece is read as its token. -/
structure Ends (p : Piece) (rest : List Char) : Prop where
  lexes : Lexes p.flag p.kind p.text rest
  firm : solid (p.text ++ rest) = true

/-- The two pieces can stand side by side. -/
structure Meets (p q : Piece) : Prop where
  ends : ∀ rest, p.Ends (q.chars ++ rest)
  slash : q.text.head? = some '/' → p.regexBehind = false
  calm : p.Calm q

theorem Whole.text_ne_nil (whole : p.Whole) : p.text ≠ [] := by
  obtain ⟨rest, c, tail, _, same, _⟩ := whole.lexes
  rw [same]
  exact List.cons_ne_nil c tail

theorem Stands.flag_eq (stands : p.Stands regexAllowed rest) (noRegex : p.kind ≠ .regex) :
    Lexes p.flag p.kind p.text rest := by
  by_cases slash : p.text.head? = some '/'
  · have same := stands.lexes.flag_of_slash noRegex slash
    have : p.flag = false := by simp [flag, slash]
    rw [this]
    exact same ▸ stands.lexes
  · exact stands.lexes.any_flag slash

theorem Stands.whole (stands : p.Stands regexAllowed rest) (noRegex : p.kind ≠ .regex) :
    p.Whole where
  gap := stands.gap
  lexes := ⟨rest, stands.flag_eq noRegex⟩
  firm := by
    have firm := stands.firm
    obtain ⟨c, tail, _, same, _⟩ := stands.lexes
    rw [same] at firm ⊢
    cases tail with
    | nil =>
      rw [List.cons_append, solid, Bool.and_eq_true] at firm
      rw [solid, firm.1]
      simp
    | cons d tail => exact firm

theorem Ends.stands (ends : p.Ends rest) (isGap : Gap p.newline p.gap)
    (slash : p.text.head? = some '/' → regexAllowed = false) : p.Stands regexAllowed rest where
  gap := isGap
  lexes := by
    by_cases isSlash : p.text.head? = some '/'
    · have same : p.flag = regexAllowed := by simp [flag, isSlash, slash]
      exact same ▸ ends.lexes
    · exact ends.lexes.any_flag isSlash
  firm := ends.firm

/-! ## What continues a piece -/

theorem Whole.ends (whole : p.Whole) (clear : Clear (continuedBy p.kind p.text) rest)
    (noSlash : p.text ≠ ['/']) : p.Ends rest where
  lexes := by
    obtain ⟨rest', lexes⟩ := whole.lexes
    exact lexes.exchange clear fun _ => rfl
  firm := by
    have firm := whole.firm
    obtain ⟨c, tail, same⟩ := List.exists_cons_of_ne_nil whole.text_ne_nil
    rw [same] at firm noSlash ⊢
    cases tail with
    | nil =>
      have noSlash : c ≠ '/' := fun slash => noSlash (by rw [slash])
      rw [solid, Bool.and_eq_true] at firm
      rw [List.cons_append, solid, firm.1]
      simp [noSlash]
    | cons d tail => exact firm

/-- A class that holds neither starts of gaps nor the first character of the word does not
continue into the piece. -/
theorem Whole.clear {q : Piece} (whole : q.Whole) {part : Char → Bool}
    (gap : ∀ c, isGapStart c = true → part c = false)
    (word : q.gap = [] → ∀ c, q.text.head? = some c → part c = false) (rest : List Char) :
    Clear part (q.chars ++ rest) := by
  intro c head
  obtain ⟨d, tail, text⟩ := List.exists_cons_of_ne_nil whole.text_ne_nil
  cases spaces : q.gap with
  | nil =>
    refine word spaces c ?_
    rw [text]
    simpa [chars, spaces, text] using head
  | cons e gap' =>
    refine gap c (whole.gap.head c ?_)
    rw [spaces]
    simpa [chars, spaces] using head

theorem text_eq_of_isPunct {text : String} (isText : p.isPunct text = true) :
    p.kind = .punctuator ∧ p.text = text.toList := by
  rw [isPunct, Token.isPunct, Bool.and_eq_true, decide_eq_true_eq, decide_eq_true_eq] at isText
  refine ⟨isText.1, ?_⟩
  rw [← isText.2]
  exact (String.toList_ofList ..).symm

/-- Can a phrase end with the piece? -/
def isEnd (p : Piece) : Bool :=
  p.isOperand || p.isPunct ")"

/-- Can a phrase start with the piece? -/
def IsStart (p : Piece) : Prop :=
  p.isOperand = true ∨ p.isPunct "(" = true ∨ ∃ op, p.signOp? = some op

/-- The signs between phrases that bind loosely, and those that close them. -/
def closings : List String :=
  ["&&", "||", "??", "|", "^", "&", "==", "!=", "===", "!==", "<", ">", "<=", ">=", "?", ":", ",",
   ")", ";"]

/-- The signs between phrases that bind loosely, and those that open them. -/
def openings : List String :=
  ["&&", "||", "??", "|", "^", "&", "==", "!=", "===", "!==", "<", ">", "<=", ">=", "?", ":", ",",
   "(", "!"]

/-- What may continue an operator is the next character of a longer one. -/
theorem exists_of_extends {text : List Char} {c : Char}
    (extended : extendsPunctuator text c = true) :
    ∃ longer ∈ punctuators, text.isPrefixOf longer.toList = true ∧
      longer.toList[text.length]? = some c := by
  obtain ⟨longer, mem, fits⟩ := List.any_eq_true.1 extended
  obtain ⟨more, parts⟩ := List.isPrefixOf_iff_prefix.1 fits
  refine ⟨longer, mem, List.isPrefixOf_iff_prefix.2 ⟨c :: more, by simp [← parts]⟩, ?_⟩
  rw [← parts]
  simp

theorem not_extends_closed (c : Char) : extendsPunctuator [')'] c = false := by
  by_contra extended
  obtain ⟨longer, mem, fits, next⟩ := exists_of_extends (Bool.not_eq_false _ ▸ extended)
  have alone : ∀ longer ∈ punctuators, [')'].isPrefixOf longer.toList = true →
      longer.toList[1]? = none := by decide +kernel
  rw [List.length_singleton, alone longer mem fits] at next
  cases next

/-- The last word of a phrase is continued by the characters of words and numbers at most. -/
theorem continuedBy_of_isEnd (isEnd : p.isEnd = true) {c : Char} (noWord : isWordPart c = false)
    (noNumber : isNumeralPart c = false) : continuedBy p.kind p.text c = false := by
  rw [Piece.isEnd, Bool.or_eq_true] at isEnd
  rcases isEnd with operand | closed
  · rw [isOperand, Token.isOperand] at operand
    unfold continuedBy
    split <;> first | assumption | rfl | skip
    · next kind => simp [token, kind] at operand
  · obtain ⟨kind, text⟩ := text_eq_of_isPunct closed
    rw [kind, text]
    simp [continuedBy, not_extends_closed]

/-- The characters with which names and literals start. -/
def startsOperand (c : Char) : Bool :=
  isWordStart c || c.isDigit || c = '.' || isQuote c

theorem Whole.startsOperand (whole : p.Whole) (operand : p.isOperand = true) :
    ∃ c tail, p.text = c :: tail ∧ Piece.startsOperand c = true := by
  obtain ⟨rest, c, tail, start, same, form⟩ := whole.lexes
  refine ⟨c, tail, same, ?_⟩
  unfold Piece.startsOperand
  generalize name : p.kind = kind at form
  cases form with
  | word starts => simp [starts]
  | number _ starts =>
    simp only [startsNumeral, Bool.or_eq_true, Bool.and_eq_true, decide_eq_true_eq] at starts
    rcases starts with digit | ⟨point, _⟩
    · simp [digit]
    · simp [point]
  | string _ _ quote => simp [quote]
  | _ => simp [isOperand, Token.isOperand, token, name] at operand

/-- The characters with which phrases start. -/
def startsPhrase (c : Char) : Bool :=
  startsOperand c || ['(', '!', '-', '+', '~'].contains c

theorem text_eq_of_signOp? {op : UnaryOp} (sign : p.signOp? = some op) :
    p.text = op.text.toList := by
  have named : UnaryOp.ofText? (String.ofList p.text) = some op := by
    unfold signOp? Token.signOp? at sign
    split at sign
    · exact sign
    · exact sign
    · cases sign
  have written := List.find?_some named
  rw [decide_eq_true_eq] at written
  rw [written, String.toList_ofList]

theorem Whole.startsPhrase (whole : p.Whole) (isStart : p.IsStart) :
    ∃ c tail, p.text = c :: tail ∧ Piece.startsPhrase c = true := by
  rcases isStart with operand | isOpen | ⟨op, sign⟩
  · obtain ⟨c, tail, same, starts⟩ := whole.startsOperand operand
    exact ⟨c, tail, same, by simp [Piece.startsPhrase, starts]⟩
  · exact ⟨'(', [], (text_eq_of_isPunct isOpen).2, by decide⟩
  · rw [text_eq_of_signOp? sign]
    cases op <;> exact ⟨_, _, rfl, by decide⟩

/-- Only a number can start with a point. -/
theorem Whole.kind_of_point (whole : p.Whole) (isStart : p.IsStart) {tail : List Char}
    (point : p.text = '.' :: tail) : p.kind = .number := by
  rcases isStart with operand | isOpen | ⟨op, sign⟩
  · obtain ⟨rest, c, _, start, same, form⟩ := whole.lexes
    obtain ⟨rfl, rfl⟩ := List.cons.inj (point.symm.trans same)
    generalize name : p.kind = kind at form
    cases form with
    | word starts => exact absurd starts (by decide +kernel)
    | number => rfl
    | string _ _ quote => exact absurd quote (by decide)
    | _ => simp [isOperand, Token.isOperand, token, name] at operand
  · rw [(text_eq_of_isPunct isOpen).2] at point
    exact absurd (List.cons.inj point).1 (by decide)
  · rw [text_eq_of_signOp? sign] at point
    cases op <;> exact absurd (List.cons.inj point).1 (by decide)

theorem Whole.noSlash_of_isEnd (whole : p.Whole) (isEnd : p.isEnd = true) : p.text ≠ ['/'] := by
  rw [Piece.isEnd, Bool.or_eq_true] at isEnd
  intro slash
  rcases isEnd with operand | closed
  · obtain ⟨c, tail, same, starts⟩ := whole.startsOperand operand
    rw [slash] at same
    obtain ⟨rfl, _⟩ := List.cons.inj same
    exact absurd starts (by decide)
  · rw [(text_eq_of_isPunct closed).2] at slash
    exact absurd slash (by decide)

/-! ## Neighbours -/

/-- The last word of a phrase stands in front of every gap at the end. -/
theorem Whole.ends_final (whole : p.Whole) (isEnd : p.isEnd = true) {final : List Char}
    (isFinal : FinalGap final) : p.Ends final := by
  refine whole.ends (fun c head => ?_) (whole.noSlash_of_isEnd isEnd)
  obtain ⟨noWord, noNumber, _⟩ := of_isGapStart (isFinal.head c head)
  exact continuedBy_of_isEnd isEnd noWord noNumber

/-- The last word of a phrase stands in front of every sign that binds loosely or closes. -/
theorem meets_of_closing {p q : Piece} (wholeP : p.Whole) (isEnd : p.isEnd = true)
    (wholeQ : q.Whole) {text : String} (mem : text ∈ closings) (isText : q.isPunct text = true) :
    p.Meets q := by
  have first : ∀ text ∈ closings, ∃ c, text.toList.head? = some c ∧ isWordPart c = false ∧
      isNumeralPart c = false ∧ c ≠ '/' := by
    have checked : ∀ text ∈ closings, text.toList.head?.any
        (fun c => isWordPart c = false ∧ isNumeralPart c = false ∧ c ≠ '/') = true := by
      decide +kernel
    intro text mem
    obtain ⟨c, head, facts⟩ := (Option.any_eq_true ..).1 (checked text mem)
    exact ⟨c, head, of_decide_eq_true facts⟩
  obtain ⟨c, head, noWord, noNumber, noSlash⟩ := first text mem
  obtain ⟨kind, letters⟩ := text_eq_of_isPunct isText
  rw [← letters] at head
  refine ⟨fun rest => wholeP.ends (wholeQ.clear ?_ ?_ rest) (wholeP.noSlash_of_isEnd isEnd), ?_, ?_⟩
  · intro d starts
    obtain ⟨noWord, noNumber, _⟩ := of_isGapStart starts
    exact continuedBy_of_isEnd isEnd noWord noNumber
  · intro _ d isHead
    obtain rfl : c = d := by simpa [head] using isHead
    exact continuedBy_of_isEnd isEnd noWord noNumber
  · intro slash
    rw [head] at slash
    exact absurd (Option.some.inj slash) noSlash
  · intro _
    have other : ∀ text ∈ closings, text ∉ ["[", "!", "~", "\x7b"] := by decide
    have := other text mem
    simp only [token, Token.isAwaited, kind, letters, String.ofList_toList]
    simpa using fun _ => this

/-- The signs that open phrases grow into longer operators by characters with which no phrase
starts, apart from the question mark. -/
theorem opening_extends {text : String} (mem : text ∈ openings) {c : Char}
    (extended : extendsPunctuator text.toList c = true) :
    startsPhrase c = false ∨ text = "?" ∧ c = '.' := by
  have checked : ∀ text ∈ openings, ∀ longer ∈ punctuators,
      text.toList.isPrefixOf longer.toList = true → longer.toList[text.toList.length]?.all
        fun c => startsPhrase c = false ∨ text = "?" ∧ c = '.' := by
    decide +kernel
  obtain ⟨longer, memLonger, fits, next⟩ := exists_of_extends extended
  have here := checked text mem longer memLonger fits
  rw [next] at here
  exact of_decide_eq_true here

theorem continuedBy_opening {text : String} (mem : text ∈ openings) (c : Char) :
    continuedBy .punctuator text.toList c = extendsPunctuator text.toList c := by
  have noPoint : ∀ text ∈ openings, text.toList ≠ ['.'] ∧ text.toList ≠ ['?', '.'] := by decide
  simp [continuedBy, noPoint text mem]

/-- A question mark stands in front of a number that starts with a point. -/
theorem ends_question (kind : p.kind = .punctuator) (text : p.text = ['?']) {digit : Char}
    (isDigit : digit.isDigit = true) (rest : List Char) : p.Ends ('.' :: digit :: rest) where
  lexes := by
    rw [kind, text]
    exact ⟨'?', [], 0, rfl, .punctuator (by decide +kernel) rfl (by decide) (by decide)
      (by simp) (punctuator?_question isDigit rest) rfl⟩
  firm := by
    rw [text]
    simp [solid, isLineBreak]
    decide

/-- The signs that open phrases stand in front of every first word of a phrase. -/
theorem meets_of_opening {p q : Piece} (wholeP : p.Whole) {text : String} (mem : text ∈ openings)
    (isText : p.isPunct text = true) (wholeQ : q.Whole) (isStart : q.IsStart) : p.Meets q := by
  obtain ⟨kind, letters⟩ := text_eq_of_isPunct isText
  obtain ⟨c, tail, same, starts⟩ := wholeQ.startsPhrase isStart
  have head : q.text.head? = some c := by rw [same]; rfl
  have noSlash : p.text ≠ ['/'] := by
    rw [letters]
    exact (by decide : ∀ text ∈ openings, text.toList ≠ ['/']) text mem
  refine ⟨fun rest => ?_, ?_, ?_⟩
  · by_cases point : text = "?" ∧ q.gap = [] ∧ c = '.'
    · obtain ⟨rfl, none, rfl⟩ := point
      obtain ⟨digit, others, rfl, isDigit⟩ : ∃ digit others, tail = digit :: others ∧
          digit.isDigit = true := by
        have number : q.kind = .number := wholeQ.kind_of_point isStart same
        obtain ⟨rest', lexes⟩ := wholeQ.lexes
        rw [number, same] at lexes
        exact lexes.digit_of_point
      simpa [chars, none, same] using ends_question kind letters isDigit (others ++ rest)
    · refine wholeP.ends (wholeQ.clear ?_ ?_ rest) noSlash
      · intro d isGap
        obtain ⟨_, _, noSign⟩ := of_isGapStart isGap
        rw [kind, letters, continuedBy_opening mem]
        by_contra extended
        refine noSign (mem_innerSigns_of_extends ?_ (Bool.not_eq_false _ ▸ extended))
        exact letters ▸ wholeP.text_ne_nil
      · intro none d isHead
        obtain rfl : c = d := by simpa [head] using isHead
        rw [kind, letters, continuedBy_opening mem]
        by_contra extended
        rcases opening_extends mem (Bool.not_eq_false _ ▸ extended) with other | ⟨isQuestion, rfl⟩
        · rw [starts] at other
          cases other
        · exact point ⟨isQuestion, none, rfl⟩
  · intro slash
    rw [head] at slash
    obtain rfl := Option.some.inj slash
    exact absurd starts (by decide +kernel)
  · exact Phrase.calm_of_isPunct isText

/-! ## Rows of pieces -/

/-- Behind the last word of a phrase comes a word that can follow it, and behind any other word
the first word of a phrase. -/
def Follows (p q : Piece) : Prop :=
  if p.isEnd then (q.token 0).isFollower = true else q.IsStart

/-- Of most lexemes it can be seen that nothing behind them continues them. -/
theorem clear_of_lexes {kind : TokenKind} {text rest : List Char}
    (lexes : Lexes regexAllowed kind text rest) (noRegex : kind ≠ .regex)
    (noNumber : kind ≠ .number)
    (noPoint : kind = .punctuator → String.ofList text ∉ [".", "?", "?."]) :
    Clear (continuedBy kind text) rest := by
  cases kind with
  | identifier =>
    obtain ⟨_, _, _, _, _, _, clear⟩ := lexes.word (.inl rfl)
    exact clear
  | keyword =>
    obtain ⟨_, _, _, _, _, _, clear⟩ := lexes.word (.inr rfl)
    exact clear
  | punctuator =>
    have noPoint := noPoint rfl
    simp only [List.mem_cons, List.not_mem_nil, or_false, not_or] at noPoint
    have found := lexes.punctuator.2
    rw [← String.toList_ofList (l := text)] at found
    rw [String.ofList_toList] at found
    have clear := clear_of_punctuator? noPoint.1 noPoint.2.1 found
    rw [String.toList_ofList] at clear
    have one : text ≠ ['.'] := fun same => noPoint.1 (by rw [same])
    have two : text ≠ ['?', '.'] := fun same => noPoint.2.2 (by rw [same])
    intro c head
    simp [continuedBy, clear c head, one, two]
  | number => exact absurd rfl noNumber
  | regex => exact absurd rfl noRegex
  | _ => exact fun c _ => rfl

theorem head?_chars_append {q : Piece} (whole : q.Whole) (rest : List Char) :
    (q.chars ++ rest).head? = q.chars.head? := by
  have some : q.chars ≠ [] := by simp [chars, whole.text_ne_nil]
  obtain ⟨c, cs, same⟩ := List.exists_cons_of_ne_nil some
  rw [same]
  rfl

theorem solid_append {text : List Char} {q : Piece} (whole : q.Whole) {rest rest' : List Char}
    (some : text ≠ []) (firm : solid (text ++ (q.chars ++ rest)) = true) :
    solid (text ++ (q.chars ++ rest')) = true := by
  obtain ⟨c, tail, rfl⟩ := List.exists_cons_of_ne_nil some
  cases tail with
  | nil =>
    rw [List.singleton_append, solid, head?_chars_append whole] at firm ⊢
    exact firm
  | cons d tail => exact firm

theorem IsPlain.kind_ne_regex (plain : p.IsPlain) : p.kind ≠ .regex := by
  intro regex
  rcases plain with operand | ⟨text, _, isText⟩ | ⟨op, sign⟩ | ⟨op, link⟩
  · simp [isOperand, Token.isOperand, token, regex] at operand
  · simp [isPunct, Token.isPunct, token, regex] at isText
  · simp [signOp?, Token.signOp?, token, regex] at sign
  · have follows := Token.isFollower_of_ofToken? link
    simp [Token.isFollower, token, regex] at follows

theorem not_point_of_isPlain (plain : p.IsPlain)
    (noOpening : ∀ text ∈ openings, p.isPunct text = false) (kind : p.kind = .punctuator) :
    String.ofList p.text ∉ [".", "?", "?."] := by
  intro mem
  have isText : p.isPunct (String.ofList p.text) = true := by
    simp [isPunct, Token.isPunct, token, kind]
  generalize String.ofList p.text = text at mem isText
  have notMark : text ≠ "?" := by
    rintro rfl
    rw [noOpening "?" (by decide)] at isText
    cases isText
  have point : text ∈ [".", "?."] := by
    simp only [List.mem_cons, List.not_mem_nil, or_false] at mem ⊢
    rcases mem with rfl | rfl | rfl
    · exact .inl rfl
    · exact absurd rfl notMark
    · exact .inr rfl
  rcases plain with operand | ⟨other, inside, isOther⟩ | ⟨op, sign⟩ | ⟨op, link⟩
  · rw [isPunct, Token.isPunct_eq_false_of_isOperand operand] at isText
    cases isText
  · have apart : ∀ text ∈ [".", "?."], ∀ other ∈ ["(", ")", "?", ":", ","], other ≠ text := by decide
    rw [isPunct, Phrase.isPunct_ne isOther (apart text point other inside)] at isText
    cases isText
  · have none : ∀ text ∈ [".", "?."], UnaryOp.ofText? text = none := by decide
    rw [isPunct, Token.isPunct_eq_false_of_signOp? sign (none text point)] at isText
    cases isText
  · have other : ∀ text ∈ [".", "?."], text ∉ followers := by decide
    have follows := Token.isFollower_of_ofToken? link
    rw [isPunct, Token.isPunct_eq_false_of_isFollower follows (other text point)] at isText
    cases isText

theorem clear_numeral_of_isFollower {q : Piece} (whole : q.Whole)
    (follows : (q.token 0).isFollower = true) (rest : List Char) :
    Clear isNumeralPart (q.chars ++ rest) := by
  have checked : ∀ text ∈ followers, text.toList.head?.all fun c => !isNumeralPart c := by
    decide +kernel
  refine whole.clear (fun c starts => (of_isGapStart starts).2.1) ?_ rest
  intro _ c head
  have mem : String.ofList q.text ∈ followers := by
    unfold Token.isFollower at follows
    split at follows
    · simpa [token] using follows
    · have follows : String.ofList q.text = "in" ∨ String.ofList q.text = "instanceof" := by
        simpa [token] using follows
      rcases follows with same | same <;> rw [same] <;> decide
    · next kind =>
      obtain ⟨_, lexes⟩ := whole.lexes
      obtain ⟨_, _, _, form⟩ := lexes.form 0
      exact absurd kind form.kind_ne_eof
    · cases follows
  have here := checked _ mem
  rw [String.toList_ofList, head] at here
  exact Bool.not_eq_true' _ ▸ here

/-- Neighbours in a row can stand side by side, whatever comes behind them. -/
theorem Stands.meets {p q : Piece} (stands : p.Stands regexAllowed (q.chars ++ rest))
    (plain : p.IsPlain) (wholeQ : q.Whole) (follows : p.Follows q)
    (slash : q.text.head? = some '/' → p.regexBehind = false) (calm : p.Calm q) : p.Meets q := by
  have noRegex := plain.kind_ne_regex
  have wholeP := stands.whole noRegex
  by_cases opening : ∃ text ∈ openings, p.isPunct text = true
  · obtain ⟨text, mem, isText⟩ := opening
    have goes : p.isEnd = false := by
      have other : ∀ text ∈ openings, text ≠ ")" := by decide
      have noOperand : p.isOperand = false := by
        by_contra operand
        rw [isPunct, Token.isPunct_eq_false_of_isOperand (Bool.not_eq_false _ ▸ operand)] at isText
        cases isText
      rw [isEnd, noOperand, isPunct, Phrase.isPunct_ne isText (other text mem)]
      rfl
    rw [Follows, goes, if_neg (by simp)] at follows
    exact meets_of_opening wholeP mem isText wholeQ follows
  · have noOpening : ∀ text ∈ openings, p.isPunct text = false := fun text mem =>
      Bool.eq_false_iff.2 fun isText => opening ⟨text, mem, isText⟩
    refine ⟨fun rest' => ⟨?_, solid_append wholeQ wholeP.text_ne_nil stands.firm⟩, slash, calm⟩
    refine (stands.flag_eq noRegex).exchange ?_ fun _ => rfl
    by_cases number : p.kind = .number
    · have ends : p.isEnd = true := by
        simp [isEnd, isOperand, Token.isOperand, token, number]
      rw [Follows, if_pos ends] at follows
      rw [number]
      exact clear_numeral_of_isFollower wholeQ follows rest'
    · have clear := clear_of_lexes stands.lexes noRegex number (not_point_of_isPlain plain noOpening)
      intro c head
      refine clear c ?_
      rwa [head?_chars_append wholeQ] at head ⊢

/-- In a row that fits, all neighbours can stand side by side. -/
theorem isChain_of_fits {ps qs : List Piece} {final : List Char}
    (fits : Fits regexAllowed (ps ++ qs) final) (plain : ∀ p ∈ ps, p.IsPlain)
    (follows : List.IsChain Follows ps) (calm : List.IsChain Calm ps) :
    (∀ p ∈ ps, p.Whole) ∧ List.IsChain Meets ps := by
  induction ps generalizing regexAllowed with
  | nil => exact ⟨by simp, .nil⟩
  | cons p ps ih =>
    obtain ⟨stands, others⟩ := fits
    have isPlain := plain p (List.mem_cons_self ..)
    have whole := stands.whole isPlain.kind_ne_regex
    obtain ⟨wholes, chain⟩ := ih others (fun q mem => plain q (List.mem_cons_of_mem p mem))
      follows.tail calm.tail
    refine ⟨List.forall_mem_cons.2 ⟨whole, wholes⟩, ?_⟩
    cases ps with
    | nil => exact .singleton p
    | cons q ps =>
      rw [List.isChain_cons_cons] at follows calm ⊢
      have wholeQ := wholes q (List.mem_cons_self ..)
      have slash : q.text.head? = some '/' → p.regexBehind = false :=
        others.1.lexes.flag_of_slash (plain q (by simp)).kind_ne_regex
      have here : p.Stands regexAllowed (q.chars ++ render (ps ++ qs) final) := by
        simpa [render] using stands
      exact ⟨here.meets isPlain wholeQ follows.1 slash calm.1, chain⟩

/-- A row whose neighbours can stand side by side fits. -/
theorem fits_of_isChain {ps : List Piece} {last : Piece} {final : List Char}
    (wholes : ∀ p ∈ ps ++ [last], p.Whole) (chain : List.IsChain Meets (ps ++ [last]))
    (slash : ∀ p ∈ (ps ++ [last]).head?, p.text.head? = some '/' → regexAllowed = false)
    (ends : last.Ends final) (isFinal : FinalGap final) :
    Fits regexAllowed (ps ++ [last]) final := by
  induction ps generalizing regexAllowed with
  | nil =>
    refine ⟨?_, isFinal⟩
    have whole := wholes last (by simp)
    exact ends.stands whole.gap (slash last (by simp))
  | cons p ps ih =>
    have whole := wholes p (by simp)
    obtain ⟨q, qs, row⟩ : ∃ q qs, ps ++ [last] = q :: qs := by
      cases ps <;> exact ⟨_, _, rfl⟩
    rw [List.cons_append] at wholes chain slash ⊢
    have others : Fits p.regexBehind (ps ++ [last]) final := by
      refine ih (fun r mem => wholes r (List.mem_cons_of_mem p mem)) chain.tail ?_
      intro r mem
      rw [row] at mem chain
      obtain rfl : q = r := by simpa using mem
      exact (List.isChain_cons_cons.1 chain).1.slash
    refine ⟨?_, others⟩
    rw [row] at chain ⊢
    have meets := (List.isChain_cons_cons.1 chain).1
    have stands := (meets.ends (render qs final)).stands whole.gap (slash p (by simp))
    simpa [render] using stands

end Piece

end TidyScript
