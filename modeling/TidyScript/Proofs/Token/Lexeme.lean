import TidyScript.Token.Lexer
import TidyScript.Proofs.Token.Enclosed
import TidyScript.Proofs.Token.Gap

/-!
# Where a lexeme ends

The scanners look at the characters behind a lexeme to find out that it is over. What they
find there can be exchanged: the same lexeme is found in front of any other text that does
not begin with a character that would make it longer. Which characters do that depends on
the kind. A word is continued by the characters of words, a number by digits and some
letters, an operator by the signs that lead to a longer operator, a regular expression by
flags, and a string or a template by nothing.
-/

namespace TidyScript.Token

/-! ## Operators -/

/-- Does the character behind an operator lead to a longer one? -/
def extendsPunctuator (text : List Char) (c : Char) : Bool :=
  punctuators.any fun longer => (text ++ [c]).isPrefixOf longer.toList

/-- No operator stands before a longer one that it begins. -/
theorem punctuators_ordered :
    punctuators.Pairwise fun a b => ¬ a.toList <+: b.toList := by
  decide +kernel

/-- An operator grows into a longer one through operators, each with one more character.
The only exception is the point, since two points are no operator and three are. -/
theorem punctuators_grow : ∀ text ∈ punctuators, text ≠ "." → ∀ longer ∈ punctuators,
    text.toList.isPrefixOf longer.toList = true → text ≠ longer →
      String.ofList (longer.toList.take (text.toList.length + 1)) ∈ punctuators := by
  decide +kernel

/-- A text in front of another that does not end within the first reaches into the second. -/
theorem exists_longer_of_prefix {p w rest : List Char} (fits : p <+: w ++ rest)
    (apart : ¬ p <+: w) : ∃ c more, p = w ++ c :: more ∧ rest.head? = some c := by
  obtain ⟨more, rfl⟩ :=
    (List.prefix_or_prefix_of_prefix fits (List.prefix_append w rest)).resolve_left apart
  cases more with
  | nil => exact absurd (by simp) apart
  | cons c more =>
    obtain ⟨tail, rfl⟩ := (List.prefix_append_right_inj w).1 fits
    exact ⟨c, more, rfl, rfl⟩

theorem find?_punctuator {text : String} (mem : text ∈ punctuators) {rest : List Char}
    (clear : Clear (extendsPunctuator text.toList) rest) :
    (punctuators.find? fun p => p.toList.isPrefixOf (text.toList ++ rest)) = some text := by
  obtain ⟨before, behind, parts, _⟩ := List.eq_append_cons_of_mem mem
  refine List.find?_eq_some_iff_append.2 ⟨by simp, before, behind, parts, ?_⟩
  intro p memBefore
  rw [Bool.not_eq_true', Bool.eq_false_iff]
  intro fits
  rw [List.isPrefixOf_iff_prefix] at fits
  have ordered := punctuators_ordered
  rw [parts, List.pairwise_append] at ordered
  have apart : ¬ p.toList <+: text.toList :=
    ordered.2.2 p memBefore text (List.mem_cons_self ..)
  -- A match that is not longer begins the operator; a longer one is excluded by what follows.
  obtain ⟨c, more, longer, head⟩ := exists_longer_of_prefix fits apart
  have extended : extendsPunctuator text.toList c = true :=
    List.any_eq_true.2 ⟨p, parts ▸ List.mem_append_left _ memBefore,
      List.isPrefixOf_iff_prefix.2 ⟨more, by simp [longer]⟩⟩
  exact absurd (clear c head) (by simp [extended])

theorem clear_of_find?_punctuator {text : String} {rest : List Char} (notPoint : text ≠ ".")
    (found : (punctuators.find? fun p => p.toList.isPrefixOf (text.toList ++ rest)) = some text) :
    Clear (extendsPunctuator text.toList) rest := by
  intro c head
  obtain ⟨rest, rfl⟩ := List.head?_eq_some_iff.1 head
  by_contra extended
  simp only [extendsPunctuator, Bool.not_eq_false, List.any_eq_true, List.isPrefixOf_iff_prefix]
    at extended
  obtain ⟨longer, memLonger, more, parts⟩ := extended
  have mem := List.mem_of_find?_eq_some found
  have next : String.ofList (text.toList ++ [c]) ∈ punctuators := by
    have grown := punctuators_grow text (List.mem_of_find?_eq_some found) notPoint longer memLonger
    have taken : longer.toList.take (text.toList.length + 1) = text.toList ++ [c] := by
      rw [← parts, List.take_append_of_le_length (by simp), List.take_of_length_le (by simp)]
    rw [taken, ← parts] at grown
    refine grown (by simp) fun same => ?_
    have := congrArg (fun t => t.toList.length) same
    rw [← parts] at this
    simp at this
  obtain ⟨_, before, behind, split, misses⟩ := List.find?_eq_some_iff_append.1 found
  rw [split, List.mem_append, List.mem_cons] at next
  obtain early | same | late := next
  · exact absurd (misses _ early) (by simp)
  · have := congrArg String.length same
    simp at this
  · have ordered := punctuators_ordered
    rw [split, List.pairwise_append, List.pairwise_cons] at ordered
    exact ordered.2.1.1 _ late (by simp)

/-- A text is found as an operator when nothing behind it leads to a longer one. -/
theorem punctuator?_of_clear {text : String} (mem : text ∈ punctuators) {rest : List Char}
    (noDigit : text = "?." → rest.head?.any Char.isDigit = false)
    (clear : Clear (extendsPunctuator text.toList) rest) :
    punctuator? (text.toList ++ rest) = some text := by
  rw [punctuator?, find?_punctuator mem clear]
  by_cases chain : text = "?."
  · simp [chain, noDigit chain]
  · simp [chain]

/-- The signs that can follow another one within an operator. -/
def innerSigns : List Char :=
  ['=', '.', '>', '&', '|', '?', '+', '-', '*', '<']

theorem mem_innerSigns_of_extends {text : List Char} {c : Char} (nonempty : text ≠ [])
    (extended : extendsPunctuator text c = true) : c ∈ innerSigns := by
  have inner : punctuators.all fun p => p.toList.tail.all innerSigns.contains := by decide +kernel
  simp only [List.all_eq_true, List.contains_iff_mem] at inner
  obtain ⟨p, mem, fits⟩ := List.any_eq_true.1 extended
  obtain ⟨more, parts⟩ := List.isPrefixOf_iff_prefix.1 fits
  refine inner p mem c ?_
  obtain ⟨d, text, rfl⟩ := List.exists_cons_of_ne_nil nonempty
  rw [← parts]
  simp

/-- A question mark in front of a number such as `.5` is not joined with the point. -/
theorem punctuator?_question {digit : Char} (isDigit : digit.isDigit = true) (rest : List Char) :
    punctuator? ('?' :: '.' :: digit :: rest) = some "?" := by
  have noSign : Clear (extendsPunctuator "?.".toList) (digit :: rest) := by
    intro c head
    cases head
    by_contra extended
    have noDigit : innerSigns.all fun d => !d.isDigit := by decide
    simp only [List.all_eq_true, Bool.not_eq_true'] at noDigit
    have sign := mem_innerSigns_of_extends (by decide) (Bool.not_eq_false _ ▸ extended)
    exact absurd (noDigit digit sign) (by simp [isDigit])
  have chain : (punctuators.find? fun p => p.toList.isPrefixOf ('?' :: '.' :: digit :: rest)) =
      some "?." :=
    find?_punctuator (by decide) noSign
  simp [punctuator?, chain, isDigit]

theorem punctuator?_shorter {cs : List Char} {text : String} (found : punctuator? cs = some text) :
    text ∈ punctuators ∧ text.toList <+: cs := by
  unfold punctuator? at found
  split at found
  · next p hp =>
    have fits := List.find?_some hp
    rw [List.isPrefixOf_iff_prefix] at fits
    split at found <;> cases found
    · next chain =>
      simp only [Bool.and_eq_true, decide_eq_true_eq] at chain
      rw [chain.1] at fits
      exact ⟨by decide, (show ['?'] <+: "?.".toList from ⟨['.'], rfl⟩).trans fits⟩
    · exact ⟨List.mem_of_find?_eq_some hp, fits⟩
  · cases found

theorem clear_of_punctuator? {text : String} {rest : List Char} (notPoint : text ≠ ".")
    (notQuestion : text ≠ "?") (found : punctuator? (text.toList ++ rest) = some text) :
    Clear (extendsPunctuator text.toList) rest := by
  refine clear_of_find?_punctuator notPoint ?_
  unfold punctuator? at found
  split at found
  · next p hp =>
    split at found <;> cases found
    · exact absurd rfl notQuestion
    · exact hp
  · cases found

/-! ## Lexemes -/

/-- Does the text `c :: rest` start a number literal? -/
def startsNumeral (c : Char) (rest : List Char) : Bool :=
  c.isDigit || (c = '.' && rest.head?.any Char.isDigit)

/-- The ways in which the first `n` characters of `c :: rest` are a lexeme, one for each
branch of the scanner. -/
inductive LexemeForm (regexAllowed : Bool) (start : Nat) (c : Char) (rest : List Char) (n : Nat) :
    TokenKind → Prop where
  | word (starts : isWordStart c = true) (length : n = 1 + wordTail rest) :
      LexemeForm regexAllowed start c rest n (wordKind (String.ofList ((c :: rest).take n)))
  | number (noWord : isWordStart c = false) (starts : startsNumeral c rest = true)
      (length : n = numeralLength (c :: rest)) : LexemeForm regexAllowed start c rest n .number
  | string {value : String} (noWord : isWordStart c = false)
      (noNumber : startsNumeral c rest = false) (quote : isQuote c = true)
      (scan : quoted c start (c :: rest) = .done n value) :
      LexemeForm regexAllowed start c rest n (.string value)
  | template (noWord : isWordStart c = false) (noNumber : startsNumeral c rest = false)
      (noQuote : isQuote c = false) (tick : c = '\x60')
      (scan : template start (c :: rest) = .done n ()) :
      LexemeForm regexAllowed start c rest n .template
  | regex (noWord : isWordStart c = false) (noNumber : startsNumeral c rest = false)
      (noQuote : isQuote c = false) (slash : c = '/') (allowed : regexAllowed = true)
      (scan : regex start (c :: rest) = .done n ()) :
      LexemeForm regexAllowed start c rest n .regex
  | punctuator {text : String} (noWord : isWordStart c = false)
      (noNumber : startsNumeral c rest = false) (noQuote : isQuote c = false)
      (noTick : c ≠ '\x60') (noRegex : (c = '/' && regexAllowed) = false)
      (found : punctuator? (c :: rest) = some text) (length : n = text.length) :
      LexemeForm regexAllowed start c rest n .punctuator

theorem wordKind_cases (text : String) :
    wordKind text = .identifier ∨ wordKind text = .keyword := by
  unfold wordKind
  split
  · exact .inr rfl
  · exact .inl rfl

section Forms

variable {regexAllowed : Bool} {start : Nat} {c : Char} {rest : List Char} {n : Nat}
  {kind : TokenKind}

theorem Scan.eq_done_of_map {α β : Type} {f : α → β} {scan : Scan α} {v : β}
    (done : scan.map f = .done n v) : ∃ w, scan = .done n w ∧ v = f w := by
  obtain ⟨m, _ | w⟩ := scan
  · simp [Scan.map, Scan.done, Except.map] at done
  · simp only [Scan.map, Scan.done, Except.map, Scan.mk.injEq, Except.ok.injEq] at done
    exact ⟨w, by rw [Scan.done, done.1], done.2.symm⟩

/-- The scanner finds a lexeme only in one of these ways. -/
theorem LexemeForm.of_lexeme (done : Lexer.lexeme regexAllowed start c rest = .done n kind) :
    LexemeForm regexAllowed start c rest n kind := by
  unfold Lexer.lexeme at done
  split at done
  · next starts =>
    obtain ⟨rfl, rfl⟩ := Scan.done_inj done
    exact .word starts rfl
  · next noWord =>
    rw [Bool.not_eq_true] at noWord
    split at done
    · next starts =>
      obtain ⟨rfl, rfl⟩ := Scan.done_inj done
      exact .number noWord starts rfl
    · next noNumber =>
      rw [Bool.not_eq_true] at noNumber
      split at done
      · next quote =>
        obtain ⟨value, scan, rfl⟩ := Scan.eq_done_of_map done
        exact .string noWord noNumber quote scan
      · next noQuote =>
        rw [Bool.not_eq_true] at noQuote
        split at done
        · next tick =>
          obtain ⟨_, scan, rfl⟩ := Scan.eq_done_of_map done
          exact .template noWord noNumber noQuote tick scan
        · next noTick =>
          split at done
          · next slash =>
            rw [Bool.and_eq_true, decide_eq_true_eq] at slash
            obtain ⟨_, scan, rfl⟩ := Scan.eq_done_of_map done
            exact .regex noWord noNumber noQuote slash.1 slash.2 scan
          · next noRegex =>
            rw [Bool.not_eq_true] at noRegex
            split at done
            · next text found =>
              obtain ⟨rfl, rfl⟩ := Scan.done_inj done
              exact .punctuator noWord noNumber noQuote noTick noRegex found rfl
            · simp [Scan.fail, Scan.done] at done

/-- The scanner finds a lexeme in each of these ways. -/
theorem LexemeForm.lexeme (form : LexemeForm regexAllowed start c rest n kind) :
    Lexer.lexeme regexAllowed start c rest = .done n kind := by
  unfold Lexer.lexeme
  rw [← startsNumeral, ← isQuote]
  cases form with
  | word starts length => rw [if_pos starts, length]
  | number noWord starts length =>
      rw [if_neg (by simp [noWord]), if_pos starts, length]
  | string noWord noNumber quote scan =>
      rw [if_neg (by simp [noWord]), if_neg (Bool.eq_false_iff.1 noNumber), if_pos quote, scan]
      rfl
  | template noWord noNumber noQuote tick scan =>
      rw [if_neg (by simp [noWord]), if_neg (Bool.eq_false_iff.1 noNumber),
        if_neg (Bool.eq_false_iff.1 noQuote), if_pos tick, scan]
      rfl
  | regex noWord noNumber noQuote slash allowed scan =>
      have noTick : c ≠ '\x60' := by
        rw [slash]
        decide
      rw [if_neg (by simp [noWord]), if_neg (Bool.eq_false_iff.1 noNumber),
        if_neg (Bool.eq_false_iff.1 noQuote), if_neg noTick, if_pos (by simp [slash, allowed]), scan]
      rfl
  | punctuator noWord noNumber noQuote noTick noRegex found length =>
      rw [if_neg (by simp [noWord]), if_neg (Bool.eq_false_iff.1 noNumber),
        if_neg (Bool.eq_false_iff.1 noQuote), if_neg noTick, if_neg (Bool.eq_false_iff.1 noRegex),
        found, length]

/-- A lexeme lies within the text. -/
theorem LexemeForm.length_le (form : LexemeForm regexAllowed start c rest n kind) :
    n ≤ (c :: rest).length := by
  cases form with
  | word _ length =>
      have run := (List.takeWhile_prefix (l := rest) isWordPart).length_le
      rw [length, wordTail, List.length_cons]
      omega
  | number _ _ length => exact length ▸ numeralLength_le (c :: rest)
  | string _ _ _ scan =>
      obtain ⟨m, _, inner, rfl, _⟩ := Scan.eq_done_of_after_map scan
      have := (quotedTail_last inner).1
      simp only [List.tail_cons, List.length_cons] at this ⊢
      omega
  | template _ _ _ _ scan =>
      obtain ⟨m, inner, rfl⟩ := Scan.eq_done_of_after scan
      have := (templateTail_last inner).2.1
      simp only [List.tail_cons, List.length_cons] at this ⊢
      omega
  | regex _ _ _ _ _ scan => exact regex_length_le scan
  | punctuator _ _ _ _ _ found length =>
      rw [length, ← String.length_toList]
      exact (punctuator?_shorter found).2.length_le

theorem LexemeForm.kind_ne_eof (form : LexemeForm regexAllowed start c rest n kind) :
    kind ≠ .eof := by
  cases form with
  | word =>
      rcases wordKind_cases (String.ofList ((c :: rest).take n)) with word | word <;> simp [word]
  | _ => simp

end Forms

/-! ## Exchanging what stands behind a lexeme -/

/-- With `rest` behind it, the text is read as one token of the kind. -/
def Lexes (regexAllowed : Bool) (kind : TokenKind) (text rest : List Char) : Prop :=
  ∃ c tail start, text = c :: tail ∧
    LexemeForm regexAllowed start c (tail ++ rest) text.length kind

/-- Can the character continue a lexeme of the given kind and text? A point is continued by
digits too, since it then starts a number. -/
def continuedBy (kind : TokenKind) (text : List Char) (c : Char) : Bool :=
  match kind with
  | .identifier => isWordPart c
  | .keyword => isWordPart c
  | .number => isNumeralPart c
  | .regex => isWordPart c
  | .punctuator => extendsPunctuator text c || (c.isDigit && (text = ['.'] || text = ['?', '.']))
  | _ => false

namespace Lexes

variable {regexAllowed regexAllowed' : Bool} {kind : TokenKind} {text rest rest' : List Char}

theorem clear_of_takeWhile {part : Char → Bool} {run : List Char}
    (exact : ((run ++ rest).takeWhile part).length = run.length) : Clear part rest := by
  intro c head
  have whole := takeWhile_eq_run exact
  have inside : ∀ d ∈ run, part d = true := fun d mem =>
    List.mem_takeWhile_imp (by rw [whole]; exact mem)
  rw [List.takeWhile_append_of_pos inside] at whole
  have nothing : rest.takeWhile part = [] := by simpa using whole
  cases rest with
  | nil => cases head
  | cons d rest =>
    cases head
    by_contra part
    rw [Bool.not_eq_false] at part
    simp [part] at nothing

/-- What a word is made of, and that nothing behind it continues it. -/
theorem word (lexes : Lexes regexAllowed kind text rest)
    (isWord : kind = .identifier ∨ kind = .keyword) :
    ∃ c tail, text = c :: tail ∧ isWordStart c = true ∧ (∀ d ∈ tail, isWordPart d = true) ∧
      kind = wordKind (String.ofList text) ∧ Clear isWordPart rest := by
  obtain ⟨c, tail, start, rfl, form⟩ := lexes
  generalize name : kind = kind' at form
  cases form with
  | word starts length =>
    have exact : ((tail ++ rest).takeWhile isWordPart).length = tail.length := by
      rw [List.length_cons, wordTail] at length
      omega
    refine ⟨c, tail, rfl, starts, ?_, ?_, clear_of_takeWhile exact⟩
    · intro d mem
      rw [← takeWhile_eq_run exact] at mem
      exact List.mem_takeWhile_imp mem
    · rw [← List.cons_append, List.take_left]
  | _ => subst name; simp at isWord

/-- An operator is one of the list and found as such. -/
theorem punctuator (lexes : Lexes regexAllowed .punctuator text rest) :
    String.ofList text ∈ punctuators ∧ punctuator? (text ++ rest) = some (String.ofList text) := by
  obtain ⟨c, tail, start, rfl, form⟩ := lexes
  generalize kind : TokenKind.punctuator = kind' at form
  cases form with
  | word starts length =>
      rcases wordKind_cases _ with word | word <;> rw [word] at kind <;> cases kind
  | @punctuator text _ _ _ _ _ found length =>
      obtain ⟨mem, fits⟩ := punctuator?_shorter found
      have same : text.toList = c :: tail := by
        refine List.IsPrefix.eq_of_length (List.prefix_of_prefix_length_le fits
          (List.prefix_append (c :: tail) rest) ?_) ?_ <;> rw [String.length_toList, length]
      rw [← same, String.ofList_toList]
      exact ⟨mem, by rw [same]; exact found⟩
  | _ => cases kind

/-- A point with a digit behind it is not a number literal by itself. -/
theorem numeralLength_point_ne_one {c : Char} (noDigit : ¬ c.isDigit = true)
    (starts : startsNumeral c rest = true) : 1 ≠ numeralLength (c :: rest) := by
  simp only [startsNumeral, Bool.or_eq_true, noDigit, false_or, Bool.and_eq_true,
    decide_eq_true_eq, Bool.false_eq_true] at starts
  obtain ⟨rfl, digit⟩ := starts
  cases rest with
  | nil => cases digit
  | cons d rest =>
    have isDigit : d.isDigit = true := digit
    have decimal : mantissaLength ('.' :: d :: rest) = decimalNumeralLength ('.' :: d :: rest) :=
      mantissaLength_of_decimal fun mark rest same => by
        rw [List.cons.injEq] at same
        exact absurd same.1 (by decide)
    have two : 2 ≤ decimalLength false ('.' :: d :: rest) := by
      simp [decimalLength, isDigit]
    unfold numeralLength
    rw [decimal]
    unfold decimalNumeralLength
    omega

/-- **A lexeme is found again in front of any text that does not continue it.** Whether a
slash opens a regular expression matters only for lexemes that begin with one. -/
theorem exchange (lexes : Lexes regexAllowed kind text rest)
    (clear : Clear (continuedBy kind text) rest')
    (slash : text.head? = some '/' → regexAllowed' = regexAllowed) :
    Lexes regexAllowed' kind text rest' := by
  have operator := fun same : kind = .punctuator => (same ▸ lexes).punctuator
  obtain ⟨c, tail, start, rfl, form⟩ := lexes
  refine ⟨c, tail, start, rfl, ?_⟩
  cases form with
  | word starts length =>
      have exact : ((tail ++ rest).takeWhile isWordPart).length = tail.length := by
        rw [List.length_cons, wordTail] at length
        omega
      have clear' : Clear isWordPart rest' := by
        rcases wordKind_cases (String.ofList ((c :: (tail ++ rest)).take (c :: tail).length))
          with word | word <;> rw [word] at clear <;> exact clear
      have again : (c :: tail).length = 1 + wordTail (tail ++ rest') := by
        rw [wordTail, takeWhile_length_exchange exact.le clear', exact, List.length_cons,
          Nat.add_comm]
      have form : LexemeForm regexAllowed' start c (tail ++ rest') (c :: tail).length _ :=
        .word starts again
      rw [← List.cons_append, List.take_left] at form ⊢
      exact form
  | number noWord starts length =>
      have starts' : startsNumeral c (tail ++ rest') = true := by
        cases tail with
        | cons d tail => exact starts
        | nil =>
          by_cases digit : c.isDigit = true
          · simp [startsNumeral, digit]
          · exact absurd length (numeralLength_point_ne_one digit starts)
      refine .number noWord starts' ?_
      rw [← List.cons_append] at length ⊢
      exact length.trans (numeralLength_exchange length.ge clear (.inl length.symm)).symm
  | string noWord noNumber quote scan =>
      refine .string noWord ?_ quote (quoted_exchange quote scan start rest')
      simp only [isQuote, Bool.or_eq_true, decide_eq_true_eq] at quote
      rcases quote with rfl | rfl <;> simp [startsNumeral]
  | template noWord noNumber noQuote tick scan =>
      refine .template noWord ?_ noQuote tick (template_exchange scan start rest')
      rw [tick]
      rfl
  | regex noWord noNumber noQuote isSlash allowed scan =>
      refine .regex noWord ?_ noQuote isSlash ?_ (regex_exchange scan clear start)
      · rw [isSlash]
        rfl
      · rw [slash (by rw [isSlash]; rfl), allowed]
  | punctuator noWord noNumber noQuote noTick noRegex _ _ =>
      obtain ⟨mem, found⟩ := operator rfl
      have extended : Clear (extendsPunctuator (c :: tail)) rest' := fun d head => by
        have stops := clear d head
        simp only [continuedBy, Bool.or_eq_false_iff] at stops
        exact stops.1
      have noPoint : (c :: tail) = ['.'] ∨ (c :: tail) = ['?', '.'] → Clear Char.isDigit rest' :=
        fun point d head => by
          have stops := clear d head
          simp only [continuedBy, Bool.or_eq_false_iff, Bool.and_eq_false_iff,
            decide_eq_false_iff_not] at stops
          rcases stops.2 with digit | ⟨notPoint, notChain⟩
          · exact digit
          · exact absurd point (not_or.2 ⟨notPoint, notChain⟩)
      have noNumber' : startsNumeral c (tail ++ rest') = false := by
        cases tail with
        | cons d tail => exact noNumber
        | nil =>
          simp only [startsNumeral, Bool.or_eq_false_iff, Bool.and_eq_false_imp,
            decide_eq_true_eq] at noNumber ⊢
          refine ⟨noNumber.1, fun point => ?_⟩
          exact (noPoint (.inl (by rw [point]))).any_head?
      have noRegex' : (c = '/' && regexAllowed') = false := by
        by_cases isSlash : c = '/'
        · rwa [slash (by rw [isSlash]; rfl)]
        · simp [isSlash]
      have length' : (c :: tail).length = (String.ofList (c :: tail)).length :=
        String.length_ofList.symm
      refine .punctuator noWord noNumber' noQuote noTick noRegex' ?_ length'
      have noDigit (chain : String.ofList (c :: tail) = "?.") :
          rest'.head?.any Char.isDigit = false :=
        (noPoint (.inr (by rw [← String.toList_ofList (l := c :: tail), chain]; rfl))).any_head?
      have again := punctuator?_of_clear mem noDigit (by rwa [String.toList_ofList])
      rwa [String.toList_ofList, List.cons_append] at again

/-- The place of a lexeme has no part in it. -/
theorem form (lexes : Lexes regexAllowed kind text rest) (start' : Nat) :
    ∃ c tail, text = c :: tail ∧
      LexemeForm regexAllowed start' c (tail ++ rest) text.length kind := by
  obtain ⟨c, tail, start, rfl, form⟩ := lexes
  refine ⟨c, tail, rfl, ?_⟩
  cases form with
  | word starts length => exact .word starts length
  | number noWord starts length => exact .number noWord starts length
  | string noWord noNumber quote scan =>
      exact .string noWord noNumber quote (quoted_exchange quote scan start' rest)
  | template noWord noNumber noQuote tick scan =>
      exact .template noWord noNumber noQuote tick (template_exchange scan start' rest)
  | regex noWord noNumber noQuote isSlash allowed scan =>
      exact .regex noWord noNumber noQuote isSlash allowed (regex_place scan start')
  | punctuator noWord noNumber noQuote noTick noRegex found length =>
      exact .punctuator noWord noNumber noQuote noTick noRegex found length

end Lexes

end TidyScript.Token
