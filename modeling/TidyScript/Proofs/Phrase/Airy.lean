import TidyScript.Proofs.Phrase.Stitch

/-!
# Room in front of words

The operators `in` and `instanceof` are words, so another word in front of them needs a gap. A
closing parenthesis does not, and where the parentheses go the two words would run together. A
phrase is airy when no such operator touches a closing parenthesis. The name `await` is not among
its words either, since it takes a word behind it for its operand. What is put together from airy
phrases is airy.

The signs that bind more loosely than the operators on numbers can stand next to any phrase that
is airy, whatever the phrase was before.
-/

namespace TidyScript

open Grammar Token

namespace Piece

/-- Is the piece an operator that is a word? -/
def isWordLink (p : Piece) : Bool :=
  (p.token 0).isKeyword "in" || (p.token 0).isKeyword "instanceof"

/-- Is the piece the name `await`? -/
def isAwait (p : Piece) : Bool :=
  (p.token 0).isIdentifier "await"

/-- An operator that is a word does not touch a parenthesis in front of it. -/
def Apart (p q : Piece) : Prop :=
  p.isPunct ")" = true → q.isWordLink = true → q.gap ≠ []

/-- A row of pieces without `await`, in which words stand apart from parentheses. -/
structure Airy (ps : List Piece) : Prop where
  apart : List.IsChain Apart ps
  names : ∀ p ∈ ps, p.isAwait = false

theorem Airy.part {before ps behind : List Piece} (airy : Airy (before ++ ps ++ behind)) :
    Airy ps :=
  ⟨airy.apart.left_of_append.right_of_append, fun p mem =>
    airy.names p (List.mem_append_left _ (List.mem_append_right _ mem))⟩

section Words

variable {p q : Piece} {text : String}

theorem isWordLink_of_kind (kind : p.kind ≠ .keyword) : p.isWordLink = false := by
  simp [isWordLink, Token.isKeyword, token, kind]

theorem isAwait_of_kind (kind : p.kind ≠ .identifier) : p.isAwait = false := by
  simp [isAwait, Token.isIdentifier, token, kind]

theorem isWordLink_of_isPunct (isText : p.isPunct text = true) : p.isWordLink = false :=
  isWordLink_of_kind (by simp [(text_eq_of_isPunct isText).1])

theorem isAwait_of_isPunct (isText : p.isPunct text = true) : p.isAwait = false :=
  isAwait_of_kind (by simp [(text_eq_of_isPunct isText).1])

theorem isWordLink_cases (word : p.isWordLink = true) :
    p.kind = .keyword ∧ (String.ofList p.text = "in" ∨ String.ofList p.text = "instanceof") := by
  rw [isWordLink, Bool.or_eq_true, Token.isKeyword, Token.isKeyword, Bool.and_eq_true,
    Bool.and_eq_true] at word
  rcases word with ⟨kind, text⟩ | ⟨kind, text⟩
  · exact ⟨of_decide_eq_true kind, .inl (of_decide_eq_true text)⟩
  · exact ⟨of_decide_eq_true kind, .inr (of_decide_eq_true text)⟩

theorem IsStart.isWordLink (isStart : p.IsStart) : p.isWordLink = false := by
  by_contra word
  obtain ⟨kind, text⟩ := isWordLink_cases (Bool.not_eq_false _ ▸ word)
  rcases isStart with operand | isOpen | ⟨op, sign⟩
  · rcases text with text | text <;>
      simp [isOperand, Token.isOperand, token, kind, text] at operand
  · simp [isPunct, Token.isPunct, token, kind] at isOpen
  · have none : UnaryOp.ofText? "in" = none ∧ UnaryOp.ofText? "instanceof" = none := by decide
    rcases text with text | text <;>
      simp [signOp?, Token.signOp?, token, kind, text, none] at sign

theorem isAwait_of_signOp? {op : UnaryOp} (sign : p.signOp? = some op) : p.isAwait = false :=
  isAwait_of_kind fun kind => by simp [signOp?, Token.signOp?, token, kind] at sign

theorem isAwait_of_linkOp? {op : Infix} (link : p.linkOp? = some op) : p.isAwait = false :=
  isAwait_of_kind fun kind => by simp [linkOp?, Infix.ofToken?, token, kind] at link

theorem Apart.of_isStart (isStart : q.IsStart) : p.Apart q := by
  intro _ word
  rw [isStart.isWordLink] at word
  cases word

theorem Apart.of_isPunct (isText : q.isPunct text = true) : p.Apart q := by
  intro _ word
  rw [isWordLink_of_isPunct isText] at word
  cases word

/-- An operator between operands is a word, or a sign that stands among the loose ones when it
binds loosely. -/
theorem Whole.link_cases {op : Infix} (whole : p.Whole) (link : p.linkOp? = some op) :
    (∃ text, p.isPunct text = true ∧ (op.power ≤ 8 → text ∈ openings ∧ text ∈ closings)) ∨
      p.isWordLink = true ∧ op.power = 8 := by
  unfold linkOp? Infix.ofToken? at link
  split at link
  · next kind =>
    have kind : p.kind = .punctuator := kind
    obtain ⟨_, lexes⟩ := whole.lexes
    rw [kind] at lexes
    have sign : String.ofList p.text ∉ ["in", "instanceof"] := by
      have other : ∀ text ∈ punctuators, text ∉ ["in", "instanceof"] := by decide +kernel
      exact other _ lexes.punctuator.1
    refine .inl ⟨String.ofList p.text, by simp [isPunct, Token.isPunct, token, kind], ?_⟩
    split at link
    · next other named =>
      cases link
      have written := List.find?_some named
      rw [show String.ofList p.text = other.text from (of_decide_eq_true written).symm]
      cases other <;> decide
    · obtain ⟨other, named, rfl⟩ := Option.map_eq_some_iff.1 link
      have written := List.find?_some named
      rw [show String.ofList p.text = other.text from (of_decide_eq_true written).symm] at sign ⊢
      cases other <;> first | decide | exact absurd sign (by decide)
  · next kind =>
    have kind : p.kind = .keyword := kind
    split at link
    · next text =>
      cases link
      exact .inr ⟨by simpa [isWordLink, Token.isKeyword, token, kind] using .inr text, rfl⟩
    · split at link
      · next text =>
        cases link
        have text : String.ofList p.text = "in" := by simpa [token] using text
        exact .inr ⟨by simp [isWordLink, Token.isKeyword, token, kind, text], rfl⟩
      · cases link
  · cases link

theorem Whole.power_of_isWordLink {op : Infix} (whole : p.Whole) (link : p.linkOp? = some op)
    (word : p.isWordLink = true) : op.power = 8 := by
  rcases whole.link_cases link with ⟨text, isText, _⟩ | ⟨_, power⟩
  · rw [isWordLink_of_isPunct isText] at word
    cases word
  · exact power

end Words

/-! ## Loose signs next to phrases -/

section Neighbours

variable {p q : Piece} {op : Infix}

/-- A word can stand in front of an operator that is a word, behind a gap. -/
theorem meets_of_isWordLink (wholeP : p.Whole) (isEnd : p.isEnd = true) (quiet : p.isAwait = false)
    (wholeQ : q.Whole) (word : q.isWordLink = true) (room : q.gap ≠ []) : p.Meets q where
  ends rest := by
    refine wholeP.ends (wholeQ.clear ?_ (fun none => absurd none room) rest)
      (wholeP.noSlash_of_isEnd isEnd)
    intro c starts
    obtain ⟨noWord, noNumber, _⟩ := of_isGapStart starts
    exact continuedBy_of_isEnd isEnd noWord noNumber
  slash slash := by
    obtain ⟨_, text | text⟩ := isWordLink_cases word <;>
      rw [← String.toList_ofList (l := q.text), text] at slash <;> exact absurd slash (by decide)
  calm waits := by
    rw [show (p.token 0).isIdentifier "await" = false from quiet] at waits
    cases waits

/-- The first word of a phrase can stand behind every operator that binds loosely. -/
theorem link_meets (wholeP : p.Whole) (link : p.linkOp? = some op) (weak : op.power ≤ 7)
    (wholeQ : q.Whole) (isStart : q.IsStart) : p.Meets q := by
  rcases wholeP.link_cases link with ⟨text, isText, loose⟩ | ⟨_, power⟩
  · exact meets_of_opening wholeP (loose (by omega)).1 isText wholeQ isStart
  · omega

/-- The pieces have the same word. -/
def Alike (p q : Piece) : Prop :=
  p.kind = q.kind ∧ p.text = q.text

theorem Alike.meets {r : Piece} (alike : r.Alike p) (meets : p.Meets q) : r.Meets q := by
  have same : r = p.led r.gap := by
    obtain ⟨kind, text⟩ := alike
    cases r
    simp_all [Piece.led]
  rw [same]
  exact meets.led r.gap

theorem Alike.isPunct {text : String} (alike : p.Alike q) : p.isPunct text = q.isPunct text := by
  simp [Piece.isPunct, Token.isPunct, token, alike.1, alike.2]

theorem continuedBy_eq_false {kind : TokenKind} {text : List Char} {c : Char} (some : text ≠ [])
    (noWord : isWordPart c = false) (noNumber : isNumeralPart c = false) (noSign : c ∉ innerSigns) :
    continuedBy kind text c = false := by
  have noDigit : c.isDigit = false := by
    by_contra digit
    simp [isNumeralPart, Bool.not_eq_false _ ▸ digit] at noNumber
  have alone : extendsPunctuator text c = false := by
    by_contra extended
    exact noSign (mem_innerSigns_of_extends some (Bool.not_eq_false _ ▸ extended))
  unfold continuedBy
  split <;> simp [noWord, noNumber, noDigit, alone]

/-- What stands in front of a negation can stand in front of a parenthesis. -/
theorem Meets.opened (meets : p.Meets q) (isNot : q.isPunct "!" = true)
    (isGap : Gap q.newline q.gap) : p.Meets (sign q.gap "(") where
  ends rest := by
    have whole : (sign q.gap "(").Whole := Phrase.whole_sign isGap (by decide)
    have before := meets.ends rest
    obtain ⟨c, tail, _, text, _⟩ := before.lexes
    have some : p.text ≠ [] := by simp [text]
    refine ⟨before.lexes.exchange (whole.clear ?_ ?_ rest) fun _ => rfl, ?_⟩
    · intro d starts
      obtain ⟨noWord, noNumber, noSign⟩ := of_isGapStart starts
      exact continuedBy_eq_false some noWord noNumber noSign
    · intro _ d head
      obtain rfl : '(' = d := Option.some.inj head
      exact continuedBy_eq_false some (by decide +kernel) (by decide +kernel) (by decide)
    · have firm := before.firm
      have letters := (text_eq_of_isPunct isNot).2
      rw [text] at firm ⊢
      cases tail with
      | cons => exact firm
      | nil =>
        rw [List.singleton_append, solid] at firm ⊢
        cases gap : q.gap with
        | nil =>
          rw [Bool.and_eq_true] at firm
          rw [firm.1]
          simp [sign, chars]
        | cons d others => simpa [sign, chars, gap] using firm
  slash slash := absurd (Option.some.inj slash) (by decide)
  calm _ := by simp [sign, token, Token.isAwaited]

end Neighbours

end Piece

/-! ## Airy phrases -/

namespace Phrase

/-- The phrase is an airy row. -/
def Airy (φ : Phrase) : Prop :=
  Piece.Airy φ.pieces

section Airy

variable {left right inner test yes no first rest : Phrase} {p q : Piece}

theorem airy_group (isOpen : p.isPunct "(" = true) (grouped : inner.Grouped)
    (isClose : q.isPunct ")" = true) : (group p inner q).Airy ↔ inner.Airy := by
  constructor
  · rintro ⟨apart, names⟩
    exact ⟨(isChain_group.1 apart).2.1, fun r mem => names r (by simp [pieces, mem])⟩
  · rintro ⟨apart, names⟩
    refine ⟨isChain_group.2 ⟨.of_isStart grouped.isStart_first, apart, .of_isPunct isClose⟩, ?_⟩
    simp only [pieces, List.mem_cons, List.mem_append, List.not_mem_nil, or_false]
    rintro r (rfl | mem | rfl)
    · exact Piece.isAwait_of_isPunct isOpen
    · exact names r mem
    · exact Piece.isAwait_of_isPunct isClose

theorem airy_signed {op : UnaryOp} (grouped : (signed p op inner).Grouped) :
    (signed p op inner).Airy ↔ inner.Airy := by
  constructor
  · rintro ⟨apart, names⟩
    exact ⟨(isChain_signed.1 apart).2, fun r mem => names r (by simp [pieces, mem])⟩
  · rintro ⟨apart, names⟩
    refine ⟨isChain_signed.2 ⟨.of_isStart grouped.2.1.isStart_first, apart⟩, ?_⟩
    simp only [pieces, List.mem_cons]
    rintro r (rfl | mem)
    · exact Piece.isAwait_of_signOp? grouped.1.1
    · exact names r mem

theorem airy_linked {op : Infix} (grouped : (linked op left p right).Grouped) :
    (linked op left p right).Airy ↔ (left.Airy ∧ left.last.Apart p) ∧ right.Airy := by
  constructor
  · rintro ⟨apart, names⟩
    obtain ⟨⟨chainLeft, before⟩, _, chainRight⟩ := isChain_linked.1 apart
    exact ⟨⟨⟨chainLeft, fun r mem => names r (by simp [pieces, mem])⟩, before⟩, chainRight,
      fun r mem => names r (by simp [pieces, mem])⟩
  · rintro ⟨⟨⟨chainLeft, namesLeft⟩, before⟩, chainRight, namesRight⟩
    refine ⟨isChain_linked.2 ⟨⟨chainLeft, before⟩, .of_isStart grouped.2.2.1.isStart_first,
      chainRight⟩, ?_⟩
    simp only [pieces, List.mem_append, List.mem_cons]
    rintro r (mem | rfl | mem)
    · exact namesLeft r mem
    · exact Piece.isAwait_of_linkOp? grouped.1
    · exact namesRight r mem

theorem airy_logical {op : LogicalOp} (grouped : (linked (.logical op) left p right).Grouped) :
    (linked (.logical op) left p right).Airy ↔ left.Airy ∧ right.Airy := by
  have sign := isPunct_of_linkOp?_logical grouped.1
  rw [airy_linked grouped, and_iff_left (Piece.Apart.of_isPunct sign)]

theorem airy_choice (grouped : (choice test p yes q no).Grouped) :
    (choice test p yes q no).Airy ↔ test.Airy ∧ yes.Airy ∧ no.Airy := by
  obtain ⟨⟨isMark, isColon⟩, _, ⟨groupedYes, _⟩, groupedNo, _⟩ := grouped
  constructor
  · rintro ⟨apart, names⟩
    obtain ⟨⟨chainTest, _⟩, ⟨_, chainYes, _⟩, _, chainNo⟩ := isChain_choice.1 apart
    exact ⟨⟨chainTest, fun r mem => names r (by simp [pieces, mem])⟩,
      ⟨chainYes, fun r mem => names r (by simp [pieces, mem])⟩,
      chainNo, fun r mem => names r (by simp [pieces, mem])⟩
  · rintro ⟨⟨chainTest, namesTest⟩, ⟨chainYes, namesYes⟩, chainNo, namesNo⟩
    refine ⟨isChain_choice.2 ⟨⟨chainTest, .of_isPunct isMark⟩,
      ⟨.of_isStart groupedYes.isStart_first, chainYes, .of_isPunct isColon⟩,
      .of_isStart groupedNo.isStart_first, chainNo⟩, ?_⟩
    simp only [pieces, List.mem_append, List.mem_cons]
    rintro r (mem | rfl | mem | rfl | mem)
    · exact namesTest r mem
    · exact Piece.isAwait_of_isPunct isMark
    · exact namesYes r mem
    · exact Piece.isAwait_of_isPunct isColon
    · exact namesNo r mem

theorem airy_comma (grouped : (comma first p rest).Grouped) :
    (comma first p rest).Airy ↔ first.Airy ∧ rest.Airy := by
  obtain ⟨isSign, _, groupedRest⟩ := grouped
  constructor
  · rintro ⟨apart, names⟩
    obtain ⟨⟨chainFirst, _⟩, _, chainRest⟩ := isChain_comma.1 apart
    exact ⟨⟨chainFirst, fun r mem => names r (by simp [pieces, mem])⟩, chainRest,
      fun r mem => names r (by simp [pieces, mem])⟩
  · rintro ⟨⟨chainFirst, namesFirst⟩, chainRest, namesRest⟩
    refine ⟨isChain_comma.2 ⟨⟨chainFirst, .of_isPunct isSign⟩,
      .of_isStart groupedRest.isStart_first, chainRest⟩, ?_⟩
    simp only [pieces, List.mem_append, List.mem_cons]
    rintro r (mem | rfl | mem)
    · exact namesFirst r mem
    · exact Piece.isAwait_of_isPunct isSign
    · exact namesRest r mem

end Airy

section Wrapping

variable {φ : Phrase} {gap : List Char} {parent : Precedence} {right : Bool}

theorem Airy.led (airy : φ.Airy) (gap : List Char) : (φ.led gap).Airy := by
  obtain ⟨others, parts⟩ := φ.pieces_eq_cons
  obtain ⟨apart, names⟩ := airy
  rw [parts] at apart names
  refine ⟨?_, ?_⟩
  · rw [pieces_led gap parts]
    cases others with
    | nil => exact .singleton _
    | cons q others =>
      rw [List.isChain_cons_cons] at apart ⊢
      exact apart
  · rw [pieces_led gap parts]
    rw [List.forall_mem_cons] at names ⊢
    exact names

theorem Airy.wrap (airy : φ.Airy) (grouped : φ.Grouped) (gap : List Char) : (φ.wrap gap).Airy :=
  (airy_group (isPunct_sign gap "(") grouped.led (isPunct_sign [] ")")).2 (airy.led [])

/-- A legible phrase that is airy wherever that is asked for. -/
structure Neat (airy : Prop) (φ : Phrase) : Prop where
  legible : φ.Legible
  airy : airy → φ.Airy

variable {airy : Prop} {b : Bool}

theorem Neat.led (neat : φ.Neat airy) (isGap : Gap b gap) : (φ.led gap).Neat airy :=
  ⟨neat.legible.led isGap, fun asked => (neat.airy asked).led gap⟩

theorem Neat.wrap (neat : φ.Neat airy) (isGap : Gap b gap) : (φ.wrap gap).Neat airy :=
  ⟨legible_wrap isGap neat.legible, fun asked => (neat.airy asked).wrap neat.legible.grouped gap⟩

theorem Neat.operand (neat : φ.Neat airy) (isGap : Gap b gap) :
    (φ.operand parent right gap).Neat airy := by
  unfold Phrase.operand
  split
  · exact neat.wrap isGap
  · exact neat.led isGap

theorem Neat.asTest (neat : φ.Neat airy) (isGap : Gap b gap) : (φ.asTest gap).Neat airy := by
  unfold Phrase.asTest
  split
  · exact neat.wrap isGap
  · exact neat.led isGap

/-- A grouped phrase inside a neat one is neat. -/
theorem Neat.part {ψ : Phrase} (neat : φ.Neat airy) (before behind : List Piece)
    (parts : φ.pieces = before ++ ψ.pieces ++ behind) (grouped : ψ.Grouped) : ψ.Neat airy := by
  refine ⟨neat.legible.part before behind parts grouped, fun asked => ?_⟩
  have whole : Piece.Airy φ.pieces := neat.airy asked
  rw [parts] at whole
  exact whole.part

theorem Neat.group {left right : Piece} {inner : Phrase}
    (neat : (Phrase.group left inner right).Neat airy) : inner.Neat airy :=
  neat.part [left] [right] rfl neat.legible.grouped.2.1

theorem Neat.signed {sign : Piece} {op : UnaryOp} {operand : Phrase}
    (neat : (Phrase.signed sign op operand).Neat airy) : operand.Neat airy :=
  neat.part [sign] [] (by simp [pieces]) neat.legible.grouped.2.1

theorem Neat.linked {op : Infix} {left right : Phrase} {sign : Piece}
    (neat : (Phrase.linked op left sign right).Neat airy) : left.Neat airy ∧ right.Neat airy := by
  obtain ⟨_, ⟨groupedLeft, _⟩, groupedRight, _⟩ := neat.legible.grouped
  exact ⟨neat.part [] (sign :: right.pieces) rfl groupedLeft,
    neat.part (left.pieces ++ [sign]) [] (by simp [pieces]) groupedRight⟩

theorem Neat.choice {test yes no : Phrase} {mark colon : Piece}
    (neat : (Phrase.choice test mark yes colon no).Neat airy) :
    test.Neat airy ∧ yes.Neat airy ∧ no.Neat airy := by
  obtain ⟨_, ⟨groupedTest, _⟩, ⟨groupedYes, _⟩, groupedNo, _⟩ := neat.legible.grouped
  exact ⟨neat.part [] (mark :: (yes.pieces ++ colon :: no.pieces)) rfl groupedTest,
    neat.part (test.pieces ++ [mark]) (colon :: no.pieces) (by simp [pieces]) groupedYes,
    neat.part (test.pieces ++ mark :: (yes.pieces ++ [colon])) [] (by simp [pieces]) groupedNo⟩

end Wrapping

/-! ## Phrases that stand in a row -/

/-- A neat phrase at its place among other pieces. -/
structure Stands (airy : Prop) (row : List Piece) (φ : Phrase) (offset : Nat) : Prop where
  isAt : φ.IsAt row offset
  neat : φ.Neat airy

namespace Stands

variable {airy : Prop} {row : List Piece} {offset : Nat}

theorem grouped {φ : Phrase} (stands : φ.Stands airy row offset) : φ.Grouped :=
  stands.neat.legible.grouped

theorem group {left right : Piece} {inner : Phrase}
    (stands : (Phrase.group left inner right).Stands airy row offset) :
    inner.Stands airy row (offset + left.bytes) :=
  ⟨stands.isAt.group, stands.neat.group⟩

theorem signed {sign : Piece} {op : UnaryOp} {operand : Phrase}
    (stands : (Phrase.signed sign op operand).Stands airy row offset) :
    operand.Stands airy row (offset + sign.bytes) :=
  ⟨stands.isAt.signed, stands.neat.signed⟩

theorem linked {op : Infix} {left right : Phrase} {sign : Piece}
    (stands : (Phrase.linked op left sign right).Stands airy row offset) :
    left.Stands airy row offset ∧ right.Stands airy row (offset + left.bytes + sign.bytes) :=
  ⟨⟨stands.isAt.linked.1, stands.neat.linked.1⟩, stands.isAt.linked.2, stands.neat.linked.2⟩

theorem choice {test yes no : Phrase} {mark colon : Piece}
    (stands : (Phrase.choice test mark yes colon no).Stands airy row offset) :
    test.Stands airy row offset ∧ yes.Stands airy row (offset + test.bytes + mark.bytes) ∧
      no.Stands airy row (offset + test.bytes + mark.bytes + yes.bytes + colon.bytes) := by
  obtain ⟨isAtTest, isAtYes, isAtNo⟩ := stands.isAt.choice
  obtain ⟨neatTest, neatYes, neatNo⟩ := stands.neat.choice
  exact ⟨⟨isAtTest, neatTest⟩, ⟨isAtYes, neatYes⟩, isAtNo, neatNo⟩

end Stands

end Phrase

/-! ## Airy sentences -/

namespace Sentence

variable {s : Sentence} {φ : Phrase} {offset : Nat}

/-- The parts of an airy sentence are airy. -/
theorem Holds.airy (holds : s.Holds φ offset) (sound : s.Sound) (airy : s.phrase.Airy) :
    φ.Airy := by
  obtain ⟨before, behind, parts, _⟩ := holds
  have whole : Piece.Airy s.pieces := by
    rcases sound.ending with none | ⟨semicolon, one, isSemicolon⟩
    · rw [pieces, none, List.append_nil]
      exact airy
    · rw [pieces, one]
      refine ⟨Phrase.isChain_concat.2 ⟨airy.apart, .of_isPunct isSemicolon⟩, ?_⟩
      simp only [List.mem_append, List.mem_singleton]
      rintro p (mem | rfl)
      · exact airy.names p mem
      · exact Piece.isAwait_of_isPunct isSemicolon
  rw [parts] at whole
  exact whole.part

theorem Part.neat (part : s.Part φ offset) (sound : s.Sound) : φ.Neat s.phrase.Airy :=
  ⟨part.legible sound, part.holds.airy sound⟩

theorem Part.stands (part : s.Part φ offset) (sound : s.Sound) :
    φ.Stands s.phrase.Airy s.pieces offset :=
  ⟨part.holds, part.neat sound⟩

end Sentence

end TidyScript
