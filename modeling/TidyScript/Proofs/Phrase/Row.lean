import TidyScript.Proofs.Phrase.Joint

/-!
# Phrases as rows of pieces

A phrase is legible when it is grouped and its neighbours meet. Legible phrases are those of
sound sentences, and every legible phrase makes a sound sentence.
-/

namespace TidyScript

open Grammar

namespace Phrase

variable {φ : Phrase} {p : Piece}

/-! ## Neighbours in a phrase -/

section Chains

variable {R : Piece → Piece → Prop} {sign : Piece}

theorem isChain_concat :
    List.IsChain R (φ.pieces ++ [sign]) ↔ List.IsChain R φ.pieces ∧ R φ.last sign := by
  obtain ⟨others, parts⟩ := φ.pieces_eq_concat
  rw [parts, List.append_assoc, List.singleton_append, List.isChain_split]
  simp

theorem isChain_cons :
    List.IsChain R (sign :: φ.pieces) ↔ R sign φ.first ∧ List.IsChain R φ.pieces := by
  obtain ⟨others, parts⟩ := φ.pieces_eq_cons
  rw [parts, List.isChain_cons_cons]

theorem isChain_between {others : List Piece} :
    List.IsChain R (φ.pieces ++ sign :: others) ↔
      (List.IsChain R φ.pieces ∧ R φ.last sign) ∧ List.IsChain R (sign :: others) := by
  rw [List.isChain_split, isChain_concat]

theorem isChain_group {left right : Piece} {inner : Phrase} :
    List.IsChain R (group left inner right).pieces ↔
      R left inner.first ∧ List.IsChain R inner.pieces ∧ R inner.last right := by
  rw [pieces]
  obtain ⟨others, parts⟩ := inner.pieces_eq_cons
  rw [parts, List.cons_append, List.isChain_cons_cons, ← List.cons_append, ← parts, isChain_concat]

theorem isChain_signed {op : UnaryOp} {operand : Phrase} :
    List.IsChain R (signed sign op operand).pieces ↔
      R sign operand.first ∧ List.IsChain R operand.pieces :=
  isChain_cons

theorem isChain_linked {op : Infix} {left right : Phrase} :
    List.IsChain R (linked op left sign right).pieces ↔
      (List.IsChain R left.pieces ∧ R left.last sign) ∧
        R sign right.first ∧ List.IsChain R right.pieces := by
  rw [pieces, isChain_between, isChain_cons]

theorem isChain_choice {test yes no : Phrase} {mark colon : Piece} :
    List.IsChain R (choice test mark yes colon no).pieces ↔
      (List.IsChain R test.pieces ∧ R test.last mark) ∧
        (R mark yes.first ∧ List.IsChain R yes.pieces ∧ R yes.last colon) ∧
          R colon no.first ∧ List.IsChain R no.pieces := by
  have middle : List.IsChain R (mark :: (yes.pieces ++ colon :: no.pieces)) ↔
      (R mark yes.first ∧ List.IsChain R yes.pieces ∧ R yes.last colon) ∧
        R colon no.first ∧ List.IsChain R no.pieces := by
    obtain ⟨others, parts⟩ := yes.pieces_eq_cons
    rw [parts, List.cons_append, List.isChain_cons_cons, ← List.cons_append, ← parts,
      isChain_between, isChain_cons]
    tauto
  rw [pieces, isChain_between, middle]

theorem isChain_comma {first rest : Phrase} :
    List.IsChain R (comma first sign rest).pieces ↔
      (List.IsChain R first.pieces ∧ R first.last sign) ∧
        R sign rest.first ∧ List.IsChain R rest.pieces := by
  rw [pieces, isChain_between, isChain_cons]

end Chains

theorem Grouped.isStart_first (grouped : φ.Grouped) : φ.first.IsStart := by
  rcases grouped.first_cases with operand | isOpen | ⟨op, sign, _⟩
  · exact .inl operand
  · exact .inr (.inl isOpen)
  · exact .inr (.inr ⟨op, sign⟩)

theorem Grouped.isEnd_last (grouped : φ.Grouped) : φ.last.isEnd = true := by
  induction φ with
  | atom word =>
    have operand : word.isOperand = true := grouped
    simp [last, Piece.isEnd, operand]
  | group left inner right => simp [last, Piece.isEnd, grouped.2.2]
  | signed sign op operand ih => exact ih grouped.2.1
  | linked op left sign right _ ih => exact ih grouped.2.2.1
  | choice test mark yes colon no _ _ ih => exact ih grouped.2.2.2.1
  | comma first sign rest _ ih => exact ih grouped.2.2

theorem isEnd_eq_false_of_isPunct {text : String} (isText : p.isPunct text = true)
    (other : text ≠ ")") : p.isEnd = false := by
  have noOperand : p.isOperand = false := by
    obtain ⟨kind, _⟩ := Piece.text_eq_of_isPunct isText
    simp [Piece.isOperand, Token.isOperand, Piece.token, kind]
  rw [Piece.isEnd, noOperand, Piece.isPunct, isPunct_ne isText other]
  rfl

theorem isEnd_eq_false_of_signOp? {op : UnaryOp} (sign : p.signOp? = some op) :
    p.isEnd = false := by
  have noOperand : p.isOperand = false := by
    by_contra operand
    rw [Bool.not_eq_false, Piece.isOperand, Token.isOperand] at operand
    rw [Piece.signOp?, Token.signOp?] at sign
    split at operand
    · next kind => simp [kind] at sign
    · next kind => simp [kind] at sign
    · next kind => simp [kind] at sign
    · next kind =>
      have none : ∀ text ∈ ["null", "true", "false"], UnaryOp.ofText? text = none := by decide
      rw [kind] at sign
      exact absurd sign (by simp [none _ (by simpa using operand)])
    · cases operand
  rw [Piece.isEnd, noOperand, Piece.isPunct,
    Token.isPunct_eq_false_of_signOp? sign (by decide)]
  rfl

theorem isEnd_eq_false_of_linkOp? {op : Infix} (sign : p.linkOp? = some op) :
    p.isEnd = false := by
  have follows := Token.isFollower_of_ofToken? sign
  have noOperand : p.isOperand = false := by
    by_contra operand
    rw [Bool.not_eq_false, Piece.isOperand, Token.isOperand] at operand
    rw [Token.isFollower] at follows
    split at operand
    · next kind => simp [kind] at follows
    · next kind => simp [kind] at follows
    · next kind => simp [kind] at follows
    · next kind =>
      rw [kind] at follows
      have apart : ∀ text ∈ ["null", "true", "false"], text ≠ "in" ∧ text ≠ "instanceof" := by decide
      have := apart _ (by simpa using operand)
      simp [this] at follows
    · cases operand
  have noParenthesis : p.isPunct ")" = false := by
    by_contra isText
    rw [Bool.not_eq_false] at isText
    rw [Piece.linkOp?, Token.ofToken?_eq_none_of_isPunct isText (by decide) (by decide)] at sign
    cases sign
  rw [Piece.isEnd, noOperand, noParenthesis]
  rfl

/-- The words of a phrase follow each other as they should. -/
theorem Grouped.isChain_follows (grouped : φ.Grouped) :
    List.IsChain Piece.Follows φ.pieces := by
  have behind : ∀ {ψ : Phrase} {q : Piece}, ψ.Grouped → (q.token 0).isFollower = true →
      ψ.last.Follows q := by
    intro ψ q inside follows
    rw [Piece.Follows, if_pos inside.isEnd_last]
    exact follows
  have ahead : ∀ {ψ : Phrase} {p : Piece}, ψ.Grouped → p.isEnd = false → p.Follows ψ.first := by
    intro ψ p inside goes
    rw [Piece.Follows, goes, if_neg (by simp)]
    exact inside.isStart_first
  induction φ with
  | atom word => exact .singleton word
  | group left inner right ih =>
    obtain ⟨isLeft, inside, isRight⟩ := grouped
    exact isChain_group.2 ⟨ahead inside (isEnd_eq_false_of_isPunct isLeft (by decide)), ih inside,
      behind inside (isFollower_of_isPunct isRight (by decide))⟩
  | signed sign op operand ih =>
    obtain ⟨⟨isSign, _⟩, inside, _⟩ := grouped
    exact isChain_signed.2 ⟨ahead inside (isEnd_eq_false_of_signOp? isSign), ih inside⟩
  | linked op left sign right ihLeft ihRight =>
    obtain ⟨isSign, ⟨groupedLeft, _⟩, groupedRight, _⟩ := grouped
    exact isChain_linked.2
      ⟨⟨ihLeft groupedLeft, behind groupedLeft (Token.isFollower_of_ofToken? isSign)⟩,
        ahead groupedRight (isEnd_eq_false_of_linkOp? isSign), ihRight groupedRight⟩
  | choice test mark yes colon no ihTest ihYes ihNo =>
    obtain ⟨⟨isMark, isColon⟩, ⟨groupedTest, _⟩, ⟨groupedYes, _⟩, groupedNo, _⟩ := grouped
    exact isChain_choice.2
      ⟨⟨ihTest groupedTest, behind groupedTest (isFollower_of_isPunct isMark (by decide))⟩,
        ⟨ahead groupedYes (isEnd_eq_false_of_isPunct isMark (by decide)), ihYes groupedYes,
          behind groupedYes (isFollower_of_isPunct isColon (by decide))⟩,
        ahead groupedNo (isEnd_eq_false_of_isPunct isColon (by decide)), ihNo groupedNo⟩
  | comma first sign rest ihFirst ihRest =>
    obtain ⟨isSign, ⟨groupedFirst, _⟩, groupedRest⟩ := grouped
    exact isChain_comma.2
      ⟨⟨ihFirst groupedFirst, behind groupedFirst (isFollower_of_isPunct isSign (by decide))⟩,
        ahead groupedRest (isEnd_eq_false_of_isPunct isSign (by decide)), ihRest groupedRest⟩

/-- The phrase can be read, with whatever stands around it. -/
structure Legible (φ : Phrase) : Prop where
  grouped : φ.Grouped
  wholes : ∀ p ∈ φ.pieces, p.Whole
  chain : List.IsChain Piece.Meets φ.pieces

theorem Legible.whole_first (legible : φ.Legible) : φ.first.Whole := by
  obtain ⟨others, parts⟩ := φ.pieces_eq_cons
  exact legible.wholes _ (parts ▸ List.mem_cons_self ..)

theorem Legible.whole_last (legible : φ.Legible) : φ.last.Whole := by
  obtain ⟨others, parts⟩ := φ.pieces_eq_concat
  exact legible.wholes _ (parts ▸ List.mem_append_right _ (List.mem_singleton_self _))

end Phrase

/-- A semicolon stands in front of every gap at the end. -/
theorem Piece.Whole.ends_semicolon {p : Piece} (whole : p.Whole) (isText : p.isPunct ";" = true)
    {final : List Char} (isFinal : Token.FinalGap final) : p.Ends final := by
  obtain ⟨kind, text⟩ := Piece.text_eq_of_isPunct isText
  refine whole.ends (fun c head => ?_) (by rw [text]; decide)
  have noSign := (Token.of_isGapStart (isFinal.head c head)).2.2
  have stays : Token.extendsPunctuator p.text c = false := by
    by_contra extended
    exact noSign (Token.mem_innerSigns_of_extends whole.text_ne_nil (Bool.not_eq_false _ ▸ extended))
  rw [kind, Token.continuedBy, stays, text]
  simp

namespace Phrase

variable {φ : Phrase}

/-- No phrase starts with a slash. -/
theorem Legible.ne_slash (legible : φ.Legible) (others : List Piece) :
    ∀ p ∈ (φ.pieces ++ others).head?, p.text.head? = some '/' → true = false := by
  intro p mem slash
  obtain ⟨tail, parts⟩ := φ.pieces_eq_cons
  obtain rfl : φ.first = p := by simpa [parts] using mem
  obtain ⟨c, tail, same, starts⟩ := legible.whole_first.startsPhrase legible.grouped.isStart_first
  obtain rfl : c = '/' := by simpa [same] using slash
  exact absurd starts (by decide +kernel)

/-- A legible phrase is a sound sentence by itself. -/
theorem Legible.sound (legible : φ.Legible) {final : List Char}
    (isFinal : Token.FinalGap final) : Sentence.Sound ⟨φ, [], final⟩ := by
  obtain ⟨others, parts⟩ := φ.pieces_eq_concat
  have fits : Piece.Fits true φ.pieces final := by
    have wholes := legible.wholes
    have chain := legible.chain
    have noSlash := legible.ne_slash []
    rw [List.append_nil] at noSlash
    rw [parts] at wholes chain noSlash ⊢
    exact Piece.fits_of_isChain wholes chain noSlash
      (legible.whole_last.ends_final legible.grouped.isEnd_last isFinal) isFinal
  refine ⟨legible.grouped, .inl rfl, ?_, ?_⟩
  · simpa [Sentence.pieces] using fits
  · simpa [Sentence.pieces] using legible.chain.imp fun _ _ meets => meets.calm

end Phrase

namespace Sentence

/-- **The phrase of a sound sentence is legible.** -/
theorem Sound.legible {s : Sentence} (sound : s.Sound) : s.phrase.Legible := by
  obtain ⟨wholes, chain⟩ := Piece.isChain_of_fits sound.fits sound.grouped.isPlain
    sound.grouped.isChain_follows sound.calm.left_of_append
  exact ⟨sound.grouped, wholes, chain⟩

theorem Sound.whole_ending {s : Sentence} (sound : s.Sound) : ∀ p ∈ s.ending, p.Whole := by
  intro p mem
  rcases sound.ending with none | ⟨semicolon, one, isSemicolon⟩
  · rw [none] at mem
    cases mem
  · obtain ⟨_, fits⟩ := sound.fits.right
    rw [one] at mem fits
    obtain rfl := List.mem_singleton.1 mem
    have kind := (Piece.text_eq_of_isPunct isSemicolon).1
    exact fits.1.whole (by simp [kind])

/-- **A legible phrase in the place of that of a sound sentence makes another one.** -/
theorem Sound.exchange {s : Sentence} (sound : s.Sound) {φ : Phrase} (legible : φ.Legible) :
    Sound ⟨φ, s.ending, s.final⟩ := by
  have isFinal := sound.fits.finalGap
  rcases sound.ending with none | ⟨semicolon, one, isSemicolon⟩
  · rw [none]
    exact legible.sound isFinal
  · have whole := sound.whole_ending semicolon (by simp [one])
    have chain : List.IsChain Piece.Meets (φ.pieces ++ [semicolon]) :=
      Phrase.isChain_concat.2 ⟨legible.chain, Piece.meets_of_closing legible.whole_last
        legible.grouped.isEnd_last whole (by decide) isSemicolon⟩
    refine ⟨legible.grouped, sound.ending, ?_, ?_⟩
    · rw [Sentence.pieces, one]
      refine Piece.fits_of_isChain ?_ chain (legible.ne_slash _) (whole.ends_semicolon isSemicolon isFinal)
        isFinal
      intro p mem
      rcases List.mem_append.1 mem with mem | mem
      · exact legible.wholes p mem
      · exact List.mem_singleton.1 mem ▸ whole
    · rw [Sentence.pieces, one]
      exact chain.imp fun _ _ meets => meets.calm

end Sentence

end TidyScript
