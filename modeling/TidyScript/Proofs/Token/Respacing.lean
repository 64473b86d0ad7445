import TidyScript.Proofs.Token.Lossless
import TidyScript.Proofs.Token.Row

/-!
# The same tokens with other white space

What stands behind a lexeme decides where it ends, but white space ends every lexeme but a string
and a template. So a lexeme that stands in a run of text without white space is found again
whatever comes behind the run, if white space comes first. This lets a row of tokens be cut out of
a source and put elsewhere: the white space between two tokens may be exchanged for other white
space, and the row reads the same.
-/

namespace TidyScript

open Lexical (isSpace)

namespace Token

/-! ## The start of a gap -/

/-- Can a gap start with the character? -/
def isGapStart (c : Char) : Bool :=
  isLineBreak c || (Text.isBlank c || c = '\ufeff') || c = '/'

/-- The code points of white space. -/
def blankCodes : List Nat :=
  Text.blankRanges.flatMap fun range => List.range' range.1 (range.2 + 1 - range.1)

theorem mem_blankCodes {c : Char} (blank : Text.isBlank c = true) : c.toNat ∈ blankCodes := by
  obtain ⟨range, mem, inside⟩ := List.any_eq_true.1 blank
  rw [Bool.and_eq_true, decide_eq_true_eq, decide_eq_true_eq] at inside
  exact List.mem_flatMap.2 ⟨range, mem, List.mem_range'_1.2 ⟨inside.1, by omega⟩⟩

/-- The characters with which gaps start continue neither words nor numbers nor operators. -/
theorem of_isGapStart {c : Char} (starts : isGapStart c = true) :
    isWordPart c = false ∧ isNumeralPart c = false ∧ c ∉ innerSigns := by
  have checked : ∀ code ∈ blankCodes ++ [0xa, 0xd, 0x2028, 0x2029, 0xfeff, 0x2f],
      isWordPart (Char.ofNat code) = false ∧ isNumeralPart (Char.ofNat code) = false ∧
        Char.ofNat code ∉ innerSigns := by
    decide +kernel
  have mem : c.toNat ∈ blankCodes ++ [0xa, 0xd, 0x2028, 0x2029, 0xfeff, 0x2f] := by
    simp only [isGapStart, isLineBreak, Bool.or_eq_true, decide_eq_true_eq] at starts
    rcases starts with (breaks | blank | rfl) | rfl
    · rcases breaks with ((rfl | rfl) | rfl) | rfl <;> decide
    · exact List.mem_append_left _ (mem_blankCodes blank)
    · decide
    · decide
  have facts := checked c.toNat mem
  rwa [Char.ofNat_toNat] at facts

theorem Gap.head {b : Bool} {gap : List Char} (isGap : Gap b gap) :
    ∀ c, gap.head? = some c → isGapStart c = true := by
  intro c head
  cases isGap with
  | nil => cases head
  | lineBreak breaks => cases head; simp [isGapStart, breaks]
  | blank _ blank => cases head; rw [isGapStart, blank]; simp
  | line => cases head; decide
  | block => cases head; decide

theorem FinalGap.head {final : List Char} (isFinal : FinalGap final) :
    ∀ c, final.head? = some c → isGapStart c = true := by
  obtain ⟨b, gap, tail, isGap, rfl, ends⟩ := isFinal
  intro c head
  cases gap with
  | cons d gap => exact isGap.head c head
  | nil =>
    rcases ends with rfl | ⟨comment, rfl, _⟩
    · cases head
    · cases head
      decide

/-! ## Lexemes by themselves -/

namespace Lexes

variable {regexAllowed regexAllowed' : Bool} {kind : TokenKind} {text rest : List Char}

/-- Whether a slash opens a regular expression matters only for lexemes that begin with one. -/
theorem any_flag (lexes : Lexes regexAllowed kind text rest) (noSlash : text.head? ≠ some '/') :
    Lexes regexAllowed' kind text rest := by
  obtain ⟨c, tail, start, rfl, form⟩ := lexes
  have noSlash : c ≠ '/' := fun slash => noSlash (by rw [slash]; rfl)
  refine ⟨c, tail, start, rfl, ?_⟩
  cases form with
  | word starts length => exact .word starts length
  | number noWord starts length => exact .number noWord starts length
  | string noWord noNumber quote scan => exact .string noWord noNumber quote scan
  | template noWord noNumber noQuote tick scan =>
      exact .template noWord noNumber noQuote tick scan
  | regex noWord noNumber noQuote slash => exact absurd slash noSlash
  | punctuator noWord noNumber noQuote noTick _ found length =>
      exact .punctuator noWord noNumber noQuote noTick (by simp [noSlash]) found length

/-- A lexeme that begins with a slash is a regular expression where one can stand, and an operator
elsewhere. -/
theorem slash_cases (lexes : Lexes regexAllowed kind text rest) (slash : text.head? = some '/') :
    kind = .regex ∧ regexAllowed = true ∨ kind = .punctuator ∧ regexAllowed = false := by
  obtain ⟨c, tail, start, rfl, form⟩ := lexes
  obtain rfl : c = '/' := by simpa using slash
  cases form with
  | word starts => exact absurd starts (by decide)
  | number _ starts => exact absurd starts (by simp [startsNumeral])
  | string _ _ quote => exact absurd quote (by decide)
  | template _ _ _ tick => exact absurd tick (by decide)
  | regex _ _ _ _ allowed => exact .inl ⟨rfl, allowed⟩
  | punctuator _ _ _ _ division => exact .inr ⟨rfl, by simpa using division⟩

/-- A lexeme other than a regular expression begins with a slash only where none can stand. -/
theorem flag_of_slash (lexes : Lexes regexAllowed kind text rest) (noRegex : kind ≠ .regex)
    (slash : text.head? = some '/') : regexAllowed = false :=
  ((lexes.slash_cases slash).resolve_left fun isRegex => noRegex isRegex.1).2

/-- A number literal that starts with a point goes on with a digit. -/
theorem digit_of_point {tail : List Char} (lexes : Lexes regexAllowed .number ('.' :: tail) rest) :
    ∃ digit others, tail = digit :: others ∧ digit.isDigit = true := by
  obtain ⟨c, tail', start, same, form⟩ := lexes
  obtain ⟨rfl, rfl⟩ := List.cons.inj same
  generalize kind : TokenKind.number = kind' at form
  cases form with
  | word =>
      rcases wordKind_cases _ with word | word <;> rw [word] at kind <;> cases kind
  | number noWord starts length =>
    cases tail with
    | nil => exact absurd length (numeralLength_point_ne_one (by decide) starts)
    | cons d others => exact ⟨d, others, rfl, by simpa [startsNumeral] using starts⟩
  | _ => cases kind

end Lexes

/-! ## White space behind a lexeme -/

/-- The text is empty or starts with white space. -/
def Spaced (text : List Char) : Prop :=
  ∀ c, text.head? = some c → isSpace c = true

theorem isGapStart_of_isSpace {c : Char} (space : isSpace c = true) : isGapStart c = true := by
  rw [isSpace] at space
  rw [isGapStart, space]
  simp

/-- White space continues no lexeme. -/
theorem continuedBy_of_isSpace {c : Char} (space : isSpace c = true) (kind : TokenKind)
    {text : List Char} (nonempty : text ≠ []) : continuedBy kind text c = false := by
  obtain ⟨noWord, noNumber, noSign⟩ := of_isGapStart (isGapStart_of_isSpace space)
  cases kind with
  | identifier | keyword | regex => exact noWord
  | number => exact noNumber
  | punctuator =>
    have noDigit : c.isDigit = false := by
      simp only [isNumeralPart, Bool.or_eq_false_iff] at noNumber
      exact noNumber.1.1.1.1.1
    have shorter : extendsPunctuator text c = false := by
      by_contra extended
      exact noSign (mem_innerSigns_of_extends nonempty (Bool.not_eq_false _ ▸ extended))
    rw [continuedBy, shorter, noDigit]
    rfl
  | _ => rfl

/-- No operator has white space in it. -/
theorem isSpace_of_mem_punctuators : ∀ text ∈ punctuators, ∀ c ∈ text.toList, isSpace c = false := by
  have solid : (punctuators.all fun text => text.toList.all fun c => !isSpace c) = true := by
    decide +kernel
  simpa using solid

variable {w rest rest' : List Char}

/-- The operator found at the front of a text is found again in front of white space. -/
theorem find?_punctuator_cut {text : String}
    (found : (punctuators.find? fun p => p.toList.isPrefixOf (w ++ rest)) = some text)
    (within : text.toList.length ≤ w.length) (spaced : Spaced rest') :
    (punctuators.find? fun p => p.toList.isPrefixOf (w ++ rest')) = some text := by
  obtain ⟨fits, before, behind, parts, misses⟩ := List.find?_eq_some_iff_append.1 found
  rw [List.isPrefixOf_iff_prefix] at fits
  have inside := List.prefix_of_prefix_length_le fits (List.prefix_append w rest) within
  refine List.find?_eq_some_iff_append.2 ⟨List.isPrefixOf_iff_prefix.2
    (inside.trans (List.prefix_append ..)), before, behind, parts, fun p mem => ?_⟩
  have missed := misses p mem
  rw [Bool.not_eq_true', Bool.eq_false_iff, ne_eq, List.isPrefixOf_iff_prefix] at missed ⊢
  intro fits
  -- An operator that is longer than the text would have white space in it.
  obtain ⟨c, more, longer, head⟩ := exists_longer_of_prefix fits fun shorter =>
    missed (shorter.trans (List.prefix_append ..))
  have memAll : p ∈ punctuators := parts ▸ List.mem_append_left _ mem
  have solid := isSpace_of_mem_punctuators p memAll c (by rw [longer]; simp)
  exact absurd (spaced c head) (by simp [solid])

theorem punctuator?_cut {text : String} (found : punctuator? (w ++ rest) = some text)
    (within : text.toList.length < w.length) (spaced : Spaced rest')
    (apart : w = ['?', '.'] → Clear Char.isDigit rest) : punctuator? (w ++ rest') = some text := by
  unfold punctuator? at found ⊢
  split at found
  · next longest longestFound =>
    have length : longest.toList.length ≤ w.length := by
      split at found <;> cases found
      · next chain =>
        simp only [Bool.and_eq_true, decide_eq_true_eq] at chain
        rw [chain.1]
        exact within
      · exact within.le
    have sameNext : longest = "?." → ((w ++ rest').drop 2).head?.any Char.isDigit =
        ((w ++ rest).drop 2).head?.any Char.isDigit := by
      rintro rfl
      have fits := List.find?_some longestFound
      rw [List.isPrefixOf_iff_prefix] at fits
      obtain ⟨more, rfl⟩ := List.prefix_of_prefix_length_le fits (List.prefix_append w rest) length
      cases more with
      | cons d more => rfl
      | nil =>
        have spacedNext : Clear Char.isDigit rest' := fun c head => by
          have := continuedBy_of_isSpace (spaced c head) .number (List.cons_ne_nil c [])
          simp only [continuedBy, isNumeralPart, Bool.or_eq_false_iff] at this
          exact this.1.1.1.1.1
        exact spacedNext.any_head?.trans (apart rfl).any_head?.symm
    rw [find?_punctuator_cut longestFound length spaced]
    dsimp only
    rw [← found]
    by_cases chain : longest = "?."
    · rw [sameNext chain]
    · simp [chain]
  · cases found

/-- A number literal that ends within a text ends there in front of white space. -/
theorem numeralLength_cut (within : numeralLength (w ++ rest) ≤ w.length) (spaced : Spaced rest') :
    numeralLength (w ++ rest') = numeralLength (w ++ rest) := by
  refine numeralLength_exchange within (fun c head => ?_) (.inr fun c head => ?_)
  · exact continuedBy_of_isSpace (spaced c head) .number (List.cons_ne_nil c [])
  · by_contra sign
    rw [Bool.not_eq_false, isSign, Bool.or_eq_true, decide_eq_true_eq, decide_eq_true_eq] at sign
    rcases sign with rfl | rfl <;> exact absurd (spaced _ head) (by decide)

namespace Lexes

variable {regexAllowed regexAllowed' : Bool} {kind : TokenKind} {text run : List Char}

/-- **A lexeme in a run of text is found again when white space comes behind the run.** -/
theorem cut (lexes : Lexes regexAllowed kind text (run ++ rest)) (spaced : Spaced rest')
    (apart : text = ['?'] → run = ['.'] → Clear Char.isDigit rest) :
    Lexes regexAllowed kind text (run ++ rest') := by
  obtain ⟨c, tail, start, rfl, form⟩ := id lexes
  cases run with
  | nil =>
    exact lexes.exchange (fun d head => continuedBy_of_isSpace (spaced d head) _
      (List.cons_ne_nil c tail)) fun _ => rfl
  | cons d run =>
    have next {part : Char → Bool} (clear : Clear part (d :: run ++ rest)) :
        Clear part (d :: run ++ rest') := clear
    have sameStart : startsNumeral c (tail ++ (d :: run ++ rest')) =
        startsNumeral c (tail ++ (d :: run ++ rest)) := by
      cases tail <;> rfl
    cases form with
    | word starts length =>
      have exact : ((tail ++ (d :: run ++ rest)).takeWhile isWordPart).length = tail.length := by
        rw [List.length_cons, wordTail] at length
        omega
      have ends := clear_of_takeWhile exact
      refine lexes.exchange ?_ fun _ => rfl
      rcases wordKind_cases (String.ofList ((c :: (tail ++ (d :: run ++ rest))).take
        (c :: tail).length)) with word | word <;> rw [word] <;> exact next ends
    | number noWord starts length =>
      refine ⟨c, tail, start, rfl, .number noWord (sameStart ▸ starts) ?_⟩
      have parts (r : List Char) : c :: (tail ++ (d :: run ++ r)) = (c :: tail ++ d :: run) ++ r := by
        simp
      rw [parts] at length ⊢
      have within : numeralLength ((c :: tail ++ d :: run) ++ rest) ≤ (c :: tail ++ d :: run).length := by
        rw [← length, List.length_append]
        exact Nat.le_add_right _ _
      rw [numeralLength_cut within spaced, length]
    | string | template => exact lexes.exchange (fun _ _ => rfl) fun _ => rfl
    | regex _ _ _ _ _ scan =>
      obtain ⟨body, flags, _, _, ended⟩ := regex_parts scan
      exact lexes.exchange (next (clear_of_takeWhile ended)) fun _ => rfl
    | @punctuator text noWord noNumber noQuote noTick noRegex found length =>
      refine ⟨c, tail, start, rfl,
        .punctuator noWord (sameStart ▸ noNumber) noQuote noTick noRegex ?_ length⟩
      have parts (r : List Char) : c :: (tail ++ (d :: run ++ r)) = (c :: tail ++ d :: run) ++ r := by
        simp
      rw [parts] at found ⊢
      refine punctuator?_cut found ?_ spaced fun chain => ?_
      · rw [String.length_toList, ← length, List.length_append, List.length_cons (a := d)]
        omega
      · cases tail with
        | nil =>
          simp only [List.cons_append, List.nil_append, List.cons.injEq] at chain
          exact apart (by rw [chain.1]) (by rw [chain.2.1, chain.2.2])
        | cons e tail => simp at chain

/-- No lexeme ends with white space. -/
theorem isSpace_last {c : Char} (lexes : Lexes regexAllowed kind text rest)
    (last : text.getLast? = some c) : isSpace c = false := by
  by_contra space
  rw [Bool.not_eq_false] at space
  have noPart := (of_isGapStart (isGapStart_of_isSpace space)).1
  have operator := fun same : kind = .punctuator => (same ▸ lexes).punctuator.1
  have word := lexes.word
  obtain ⟨d, tail, start, rfl, form⟩ := lexes
  cases form with
  | word =>
    obtain ⟨_, _, same, starts, inside, _⟩ := word (wordKind_cases _)
    obtain ⟨rfl, rfl⟩ := List.cons.inj same
    rcases List.mem_cons.1 (List.mem_of_getLast? last) with rfl | mem
    · simp only [isWordPart, Bool.or_eq_false_iff, decide_eq_false_iff_not] at noPart
      simp only [isWordStart, noPart, Bool.false_or, decide_false, decide_eq_true_eq] at starts
      rw [starts] at space
      exact absurd space (by decide)
    · exact absurd (inside c mem) (by simp [noPart])
  | number _ _ length =>
    obtain ⟨front, ended⟩ := List.getLast?_eq_some_iff.1 last
    rw [← List.cons_append, ended] at length
    have within : numeralLength (front ++ []) ≤ front.length := by
      simpa using numeralLength_le front
    have spaced : Spaced (c :: rest) := fun e head => by cases head; exact space
    have cut := numeralLength_cut within spaced
    simp only [List.append_assoc, List.singleton_append, List.length_append,
      List.length_singleton] at length
    omega
  | string _ _ quote scan =>
    obtain ⟨m, _, inner, count, _⟩ := Scan.eq_done_of_after_map scan
    obtain rfl : m = tail.length := by rw [List.length_cons] at count; omega
    obtain ⟨_, body, ended⟩ := quotedTail_last inner
    rw [List.tail_cons, List.take_left] at ended
    rw [ended, ← List.cons_append, List.getLast?_concat] at last
    obtain rfl := Option.some.inj last
    simp only [isQuote, Bool.or_eq_true, decide_eq_true_eq] at quote
    rcases quote with rfl | rfl <;> exact absurd space (by decide)
  | template _ _ _ _ scan =>
    obtain ⟨m, inner, count⟩ := Scan.eq_done_of_after scan
    obtain rfl : m = tail.length := by rw [List.length_cons] at count; omega
    have ended := templateTail_last inner
    obtain rfl : c = '\x60' := by grind
    exact absurd space (by decide)
  | regex _ _ _ _ _ scan =>
    obtain ⟨body, flags, rfl, closed, ended⟩ := regex_parts scan
    have ends := regexTail_last closed
    cases flags with
    | nil =>
      obtain rfl : c = '/' := by grind
      exact absurd space (by decide)
    | cons e flags =>
      have mem : c ∈ e :: flags := List.mem_of_getLast? (by simpa [List.getLast?_cons] using last)
      rw [← takeWhile_eq_run ended] at mem
      exact absurd (List.mem_takeWhile_imp mem) (by simp [noPart])
  | punctuator =>
    have mem := List.mem_of_getLast? last
    rw [← String.toList_ofList (l := d :: tail)] at mem
    exact absurd (isSpace_of_mem_punctuators _ (operator rfl) c mem) (by simp [space])

/-- A point that is no number has no digit behind it. -/
theorem clear_of_point (lexes : Lexes regexAllowed kind ['.'] rest) : Clear Char.isDigit rest := by
  intro c head
  by_contra digit
  rw [Bool.not_eq_false] at digit
  have starts : startsNumeral '.' rest = true := by simp [startsNumeral, head, digit]
  obtain ⟨d, tail, start, same, form⟩ := lexes
  obtain ⟨rfl, rfl⟩ := List.cons.inj same
  cases form with
  | word starts => exact absurd starts (by decide)
  | number _ _ length => exact numeralLength_point_ne_one (by decide) starts length
  | string _ noNumber | template _ noNumber | regex _ noNumber | punctuator _ noNumber =>
    exact absurd starts (by simpa using noNumber)

end Lexes

/-- Text is as solid in front of white space. -/
theorem solid_cut {text run : List Char} (nonempty : text ≠ [])
    (firm : solid (text ++ (run ++ rest)) = true) (spaced : Spaced rest') :
    solid (text ++ (run ++ rest')) = true := by
  obtain ⟨c, tail, rfl⟩ := List.exists_cons_of_ne_nil nonempty
  cases tail with
  | cons d tail => exact firm
  | nil =>
    cases run with
    | cons d run => exact firm
    | nil =>
      have noMark : ∀ d, isSpace d = false → rest'.head? ≠ some d := by
        intro d solid head
        exact absurd (spaced d head) (by simp [solid])
      simp only [List.singleton_append, List.nil_append, solid, Bool.and_eq_true] at firm ⊢
      simp [firm.1, noMark '/' (by decide), noMark '*' (by decide)]

theorem exists_gap_of_space {gap : List Char} (space : ∀ c ∈ gap, isSpace c = true) :
    ∃ b, Gap b gap := by
  induction gap with
  | nil => exact ⟨false, .nil⟩
  | cons c gap ih =>
    rw [List.forall_mem_cons] at space
    obtain ⟨b, rest⟩ := ih space.2
    by_cases breaks : isLineBreak c = true
    · exact ⟨true, .lineBreak breaks rest⟩
    · exact ⟨b, .blank (Bool.not_eq_true _ ▸ breaks) space.1 rest⟩

end Token

open Token

/-! ## Rows of pieces -/

namespace Piece

/-- The second piece is the token of the first, behind the same gap or behind white space. -/
structure Respaces (p q : Piece) : Prop where
  kind : q.kind = p.kind
  text : q.text = p.text
  gap : q.gap = p.gap ∨ q.gap ≠ [] ∧ ∀ c ∈ q.gap, isSpace c = true

variable {regexAllowed regexAllowed' : Bool} {p q : Piece} {ps qs behind : List Piece}
  {final final' : List Char}

theorem Respaces.refl (p : Piece) : Respaces p p :=
  ⟨rfl, rfl, .inl rfl⟩

theorem Respaces.isGap {rest : List Char} (respaces : Respaces p q)
    (stands : p.Stands regexAllowed rest) : ∃ b, Gap b q.gap := by
  rcases respaces.gap with same | ⟨_, space⟩
  · exact ⟨_, same ▸ stands.gap⟩
  · exact exists_gap_of_space space

theorem Stands.respace {run rest rest' : List Char}
    (stands : p.Stands regexAllowed (run ++ rest)) (spaced : Spaced rest')
    (point : run = ['.'] → Clear Char.isDigit rest) (kind : q.kind = p.kind) (text : q.text = p.text)
    (isGap : ∃ b, Gap b q.gap) (slash : p.text.head? = some '/' → regexAllowed' = regexAllowed) :
    q.Stands regexAllowed' (run ++ rest') where
  gap := by
    obtain ⟨b, isGap⟩ := isGap
    rwa [newline_eq isGap]
  lexes := by
    have lexes := stands.lexes.cut spaced fun _ => point
    rw [kind, text]
    by_cases isSlash : p.text.head? = some '/'
    · rwa [slash isSlash]
    · exact lexes.any_flag isSlash
  firm := text ▸ solid_cut stands.text_ne_nil stands.firm spaced

/-- Two rows begin with the same run of text, and behind it white space comes in the second. -/
theorem Fits.exists_run (fits : Fits regexAllowed (ps ++ behind) final)
    (respaces : List.Forall₂ Respaces ps qs) (spaced : Spaced final') :
    ∃ run rest rest', render (ps ++ behind) final = run ++ rest ∧ render qs final' = run ++ rest' ∧
      Spaced rest' ∧ (run = ['.'] → Clear Char.isDigit rest) := by
  induction respaces generalizing regexAllowed with
  | nil => exact ⟨[], _, final', rfl, rfl, spaced, nofun⟩
  | @cons p q ps qs one _ ih =>
    rcases one.gap with same | ⟨some, space⟩
    · obtain ⟨run, rest, rest', parts, parts', behind, _⟩ := ih fits.2
      refine ⟨p.gap ++ (p.text ++ run), rest, rest', ?_, ?_, behind, fun point => ?_⟩
      · rw [List.cons_append, render_cons, parts]
        simp
      · rw [render_cons, same, one.text, parts']
        simp
      · have some := fits.1.text_ne_nil
        obtain ⟨isPoint, rfl⟩ : p.text = ['.'] ∧ run = [] := by
          grind [List.append_eq_singleton_iff]
        have lexes : Lexes _ p.kind p.text (render (ps ++ _) final) := fits.1.lexes
        rw [isPoint, parts] at lexes
        exact lexes.clear_of_point
    · refine ⟨[], _, render (q :: qs) final', rfl, rfl, fun c head => space c ?_, nofun⟩
      obtain ⟨d, gap, some⟩ := List.exists_cons_of_ne_nil some
      rw [render_cons, some] at head
      obtain rfl : d = c := by simpa using head
      simp [some]

theorem Fits.stands_respace (fits : Fits regexAllowed (p :: (ps ++ behind)) final)
    (kind : q.kind = p.kind) (text : q.text = p.text) (isGap : ∃ b, Gap b q.gap)
    (respaces : List.Forall₂ Respaces ps qs) (spaced : Spaced final')
    (slash : p.text.head? = some '/' → regexAllowed' = regexAllowed) :
    q.Stands regexAllowed' (render qs final') := by
  obtain ⟨run, rest, rest', parts, parts', spaced, point⟩ := fits.2.exists_run respaces spaced
  have stands := fits.1
  rw [parts] at stands
  exact parts' ▸ stands.respace spaced point kind text isGap slash

/-- **Pieces that stand in a row stand in a row of their own**, with other white space between
them. -/
theorem Fits.respace (fits : Fits regexAllowed (p :: (ps ++ behind)) final) (kind : q.kind = p.kind)
    (text : q.text = p.text) (isGap : ∃ b, Gap b q.gap)
    (respaces : List.Forall₂ Respaces ps qs) (spaceBehind : ∀ c ∈ final', isSpace c = true)
    (slash : p.text.head? = some '/' → regexAllowed' = regexAllowed) :
    Fits regexAllowed' (q :: qs) final' := by
  have spaced : Spaced final' := fun c head => spaceBehind c (List.mem_of_head? head)
  induction respaces generalizing p q regexAllowed regexAllowed' with
  | nil =>
    obtain ⟨b, gapBehind⟩ := exists_gap_of_space spaceBehind
    exact ⟨fits.stands_respace kind text isGap .nil spaced slash, b, final', [], gapBehind, by simp,
      .inl rfl⟩
  | cons one more ih =>
    exact ⟨fits.stands_respace kind text isGap (.cons one more) spaced slash,
      ih fits.2 one.kind one.text (one.isGap fits.2.1) fun _ => by
        rw [regexBehind, regexBehind, kind, text]⟩

theorem same_token (kind : q.kind = p.kind) (text : q.text = p.text) (place place' : Nat) :
    Token.same (q.token place) (p.token place') = true := by
  unfold Token.same Piece.token
  rw [kind, text]
  cases p.kind <;> simp

theorem sameRow_respace (kind : q.kind = p.kind) (text : q.text = p.text)
    (respaces : List.Forall₂ Respaces ps qs) (place place' : Nat) :
    Token.sameRow (tokens place (q :: qs)) (tokens place' (p :: ps)) = true := by
  refine Token.sameRow_iff_forall₂.2 ?_
  induction respaces generalizing p q place place' with
  | nil => exact .cons (same_token kind text ..) .nil
  | cons one _ ih => exact .cons (same_token kind text ..) (ih one.kind one.text ..)

end Piece

end TidyScript
