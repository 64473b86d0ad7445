import TidyScript.Logic.Law
import TidyScript.Proofs.Phrase.Place

/-!
# Putting phrases together

New code is put together from the texts of old phrases, with signs, blanks and parentheses
between them. Seen as phrases, the old ones get a new gap at the front and, where their place
asks for it, parentheses around them. What results is legible again, binds as it should and has
the value that it seems to have.
-/

namespace TidyScript

open Grammar Token

/-! ## A new gap at the front -/

/-- The piece behind another gap. -/
def Piece.led (gap : List Char) (p : Piece) : Piece :=
  { p with gap := gap }

/-- A sign behind a gap. -/
def Piece.sign (gap : List Char) (text : String) : Piece :=
  ⟨gap, .punctuator, text.toList⟩

theorem Piece.Whole.led {p : Piece} (whole : p.Whole) {gap : List Char} {b : Bool}
    (isGap : Gap b gap) : (p.led gap).Whole where
  gap := (Piece.newline_eq (p := p.led gap) isGap).symm ▸ isGap
  lexes := whole.lexes
  firm := whole.firm

/-- What stands behind a piece does not depend on the gap in front of it. -/
theorem Piece.Meets.led {p q : Piece} (meets : p.Meets q) (gap : List Char) :
    (p.led gap).Meets q where
  ends rest := ⟨(meets.ends rest).lexes, (meets.ends rest).firm⟩
  slash := meets.slash
  calm := meets.calm

namespace Phrase

/-- The phrase behind another gap. -/
def led (gap : List Char) : Phrase → Phrase
  | atom word => atom (word.led gap)
  | group left inner right => group (left.led gap) inner right
  | signed sign op operand => signed (sign.led gap) op operand
  | linked op left sign right => linked op (left.led gap) sign right
  | choice test mark yes colon no => choice (test.led gap) mark yes colon no
  | comma first sign rest => comma (first.led gap) sign rest

section Led

variable (gap : List Char)

@[simp] theorem first_led (φ : Phrase) : (φ.led gap).first = φ.first.led gap := by
  induction φ with
  | linked op left sign right ih _ => exact ih
  | choice test mark yes colon no ih _ _ => exact ih
  | comma first sign rest ih _ => exact ih
  | _ => rfl

theorem pieces_led {φ : Phrase} {others : List Piece} (parts : φ.pieces = φ.first :: others) :
    (φ.led gap).pieces = φ.first.led gap :: others := by
  induction φ generalizing others with
  | atom word => cases parts; rfl
  | group left inner right => cases parts; rfl
  | signed sign op operand => cases parts; rfl
  | linked op left sign right ih _ =>
    obtain ⟨tail, front⟩ := left.pieces_eq_cons
    rw [pieces, front] at parts
    obtain ⟨_, rfl⟩ := List.cons.inj parts
    rw [led, pieces, ih front]
    rfl
  | choice test mark yes colon no ih _ _ =>
    obtain ⟨tail, front⟩ := test.pieces_eq_cons
    rw [pieces, front] at parts
    obtain ⟨_, rfl⟩ := List.cons.inj parts
    rw [led, pieces, ih front]
    rfl
  | comma first sign rest ih _ =>
    obtain ⟨tail, front⟩ := first.pieces_eq_cons
    rw [pieces, front] at parts
    obtain ⟨_, rfl⟩ := List.cons.inj parts
    rw [led, pieces, ih front]
    rfl

@[simp] theorem text_led (φ : Phrase) : (φ.led gap).text = φ.text := by
  obtain ⟨others, parts⟩ := φ.pieces_eq_cons
  rw [text, text, pieces_led gap parts, parts]
  rfl

/-- Another gap does not change what the phrase says. -/
theorem same_led (φ : Phrase) : φ.Same (φ.led gap) := by
  have lead (p : Piece) : p.Same (p.led gap) := .of_eq rfl rfl
  induction φ with
  | atom word => exact .atom (lead word)
  | group left inner right => exact .group ⟨lead left, .refl⟩ (.refl inner)
  | signed sign op operand => exact .signed (lead sign) (.refl operand)
  | linked op left sign right ih _ => exact .linked .refl ih (.refl right)
  | choice test mark yes colon no ih _ _ => exact .choice ⟨.refl, .refl⟩ ih (.refl yes) (.refl no)
  | comma first sign rest ih _ => exact .comma .refl ih (.refl rest)

@[simp] theorem strength_led (φ : Phrase) : (φ.led gap).strength = φ.strength :=
  (φ.same_led gap).strength_eq

@[simp] theorem rank_led (φ : Phrase) : (φ.led gap).rank = φ.rank :=
  (φ.same_led gap).rank_eq

@[simp] theorem hold_led (φ : Phrase) : (φ.led gap).hold = φ.hold :=
  (φ.same_led gap).hold_eq

@[simp] theorem value_led (bindings : Bindings) (φ : Phrase) :
    (φ.led gap).value bindings = φ.value bindings :=
  (φ.same_led gap).value_eq bindings

variable {gap}

theorem Grouped.led {φ : Phrase} (grouped : φ.Grouped) : (φ.led gap).Grouped :=
  (φ.same_led gap).grouped grouped

/-- A legible phrase is legible behind any gap. -/
theorem Legible.led {φ : Phrase} (legible : φ.Legible) {b : Bool} (isGap : Gap b gap) :
    (φ.led gap).Legible := by
  obtain ⟨others, parts⟩ := φ.pieces_eq_cons
  have wholes := legible.wholes
  have chain := legible.chain
  rw [parts] at wholes chain
  refine ⟨legible.grouped.led, ?_, ?_⟩
  · rw [pieces_led gap parts]
    rw [List.forall_mem_cons] at wholes ⊢
    exact ⟨wholes.1.led isGap, wholes.2⟩
  · rw [pieces_led gap parts]
    cases others with
    | nil => exact .singleton _
    | cons q others =>
      rw [List.isChain_cons_cons] at chain ⊢
      exact ⟨chain.1.led gap, chain.2⟩

end Led

/-! ## Legible phrases from legible parts -/

section Parts

variable {left right inner test yes no first rest : Phrase} {p q : Piece}

theorem legible_group (wholeP : p.Whole) (isOpen : p.isPunct "(" = true) (legible : inner.Legible)
    (wholeQ : q.Whole) (isClose : q.isPunct ")" = true) : (group p inner q).Legible where
  grouped := ⟨isOpen, legible.grouped, isClose⟩
  wholes := by
    simp only [pieces, List.mem_cons, List.mem_append, List.not_mem_nil, or_false]
    rintro r (rfl | mem | rfl)
    · exact wholeP
    · exact legible.wholes r mem
    · exact wholeQ
  chain := isChain_group.2
    ⟨Piece.meets_of_opening wholeP (by decide) isOpen legible.whole_first legible.grouped.isStart_first,
      legible.chain,
      Piece.meets_of_closing legible.whole_last legible.grouped.isEnd_last wholeQ (by decide) isClose⟩

/-- A phrase and a sign in front of it that can stand there. -/
theorem legible_signed {op : UnaryOp} (grouped : (signed p op inner).Grouped) (whole : p.Whole)
    (behind : p.Meets inner.first) (legible : inner.Legible) : (signed p op inner).Legible where
  grouped := grouped
  wholes := by
    simp only [pieces, List.mem_cons]
    rintro r (rfl | mem)
    · exact whole
    · exact legible.wholes r mem
  chain := isChain_signed.2 ⟨behind, legible.chain⟩

/-- Two phrases and a sign between them that can stand there. -/
theorem legible_linked {op : Infix} (grouped : (linked op left p right).Grouped)
    (legibleLeft : left.Legible) (before : left.last.Meets p) (whole : p.Whole)
    (behind : p.Meets right.first) (legibleRight : right.Legible) :
    (linked op left p right).Legible where
  grouped := grouped
  wholes := by
    simp only [pieces, List.mem_cons, List.mem_append]
    rintro r (mem | rfl | mem)
    · exact legibleLeft.wholes r mem
    · exact whole
    · exact legibleRight.wholes r mem
  chain := isChain_linked.2 ⟨⟨legibleLeft.chain, before⟩, behind, legibleRight.chain⟩

theorem isPunct_of_linkOp?_logical {op : LogicalOp} (sign : p.linkOp? = some (.logical op)) :
    p.isPunct op.text = true := by
  unfold Piece.linkOp? Infix.ofToken? at sign
  split at sign
  · next kind =>
    split at sign
    · next other named =>
      obtain rfl : other = op := by simpa using sign
      have written := List.find?_some named
      rw [decide_eq_true_eq] at written
      simp [Piece.isPunct, Token.isPunct, kind, written]
    · simp at sign
  · split at sign
    · cases sign
    · split at sign <;> cases sign
  · cases sign

theorem legible_logical {op : LogicalOp} (grouped : (linked (.logical op) left p right).Grouped)
    (legibleLeft : left.Legible) (whole : p.Whole) (legibleRight : right.Legible) :
    (linked (.logical op) left p right).Legible := by
  have isText := isPunct_of_linkOp?_logical grouped.1
  have closes : op.text ∈ Piece.closings := by cases op <;> decide
  have opens : op.text ∈ Piece.openings := by cases op <;> decide
  exact legible_linked grouped legibleLeft
    (Piece.meets_of_closing legibleLeft.whole_last legibleLeft.grouped.isEnd_last whole closes isText)
    whole
    (Piece.meets_of_opening whole opens isText legibleRight.whole_first
      legibleRight.grouped.isStart_first)
    legibleRight

theorem legible_choice (grouped : (choice test p yes q no).Grouped) (legibleTest : test.Legible)
    (wholeP : p.Whole) (legibleYes : yes.Legible) (wholeQ : q.Whole) (legibleNo : no.Legible) :
    (choice test p yes q no).Legible where
  grouped := grouped
  wholes := by
    simp only [pieces, List.mem_cons, List.mem_append]
    rintro r (mem | rfl | mem | rfl | mem)
    · exact legibleTest.wholes r mem
    · exact wholeP
    · exact legibleYes.wholes r mem
    · exact wholeQ
    · exact legibleNo.wholes r mem
  chain := by
    obtain ⟨⟨isMark, isColon⟩, _⟩ := grouped
    exact isChain_choice.2
      ⟨⟨legibleTest.chain, Piece.meets_of_closing legibleTest.whole_last
          legibleTest.grouped.isEnd_last wholeP (by decide) isMark⟩,
        ⟨Piece.meets_of_opening wholeP (by decide) isMark legibleYes.whole_first
            legibleYes.grouped.isStart_first, legibleYes.chain,
          Piece.meets_of_closing legibleYes.whole_last legibleYes.grouped.isEnd_last wholeQ
            (by decide) isColon⟩,
        Piece.meets_of_opening wholeQ (by decide) isColon legibleNo.whole_first
          legibleNo.grouped.isStart_first, legibleNo.chain⟩

theorem legible_comma (grouped : (comma first p rest).Grouped) (legibleFirst : first.Legible)
    (whole : p.Whole) (legibleRest : rest.Legible) : (comma first p rest).Legible where
  grouped := grouped
  wholes := by
    simp only [pieces, List.mem_cons, List.mem_append]
    rintro r (mem | rfl | mem)
    · exact legibleFirst.wholes r mem
    · exact whole
    · exact legibleRest.wholes r mem
  chain := isChain_comma.2
    ⟨⟨legibleFirst.chain, Piece.meets_of_closing legibleFirst.whole_last
        legibleFirst.grouped.isEnd_last whole (by decide) grouped.1⟩,
      Piece.meets_of_opening whole (by decide) grouped.1 legibleRest.whole_first
        legibleRest.grouped.isStart_first, legibleRest.chain⟩

end Parts

/-! ## New signs and parentheses -/

/-- The signs that new code is put together with. -/
def newSigns : List String :=
  ["&&", "||", "??", "==", "!=", "===", "!==", "<", ">", "<=", ">=", "?", ":", "(", ")", "!"]

theorem isPunct_sign (gap : List Char) (text : String) :
    (Piece.sign gap text).isPunct text = true := by
  simp [Piece.sign, Piece.isPunct, Token.isPunct, Piece.token]

theorem whole_sign {gap : List Char} {b : Bool} (isGap : Gap b gap) {text : String}
    (mem : text ∈ newSigns) : (Piece.sign gap text).Whole := by
  have scanned : ∀ text ∈ newSigns,
      (text.toList.head?.all fun c => isWordStart c = false ∧ isQuote c = false ∧ c ≠ '\x60' ∧
        c ≠ '/' ∧ startsNumeral c text.toList.tail = false) = true ∧
          text.toList ≠ [] ∧ punctuator? text.toList = some text ∧ solid text.toList = true := by
    decide +kernel
  obtain ⟨starts, some, found, firm⟩ := scanned text mem
  obtain ⟨c, tail, same⟩ := List.exists_cons_of_ne_nil some
  rw [same] at starts
  obtain ⟨noWord, noQuote, noTick, noSlash, noNumber⟩ := of_decide_eq_true starts
  refine ⟨(Piece.newline_eq (p := Piece.sign gap text) isGap).symm ▸ isGap,
    ⟨[], c, tail, 0, same, ?_⟩, firm⟩
  rw [List.append_nil]
  refine .punctuator noWord noNumber noQuote noTick (by simp [noSlash]) (same ▸ found) ?_
  rw [Piece.sign, String.length_toList]

/-- The phrase in new parentheses. -/
def wrap (gap : List Char) (φ : Phrase) : Phrase :=
  group (Piece.sign gap "(") (φ.led []) (Piece.sign [] ")")

theorem text_group (p : Piece) (inner : Phrase) (q : Piece) :
    (group p inner q).text = p.text ++ (inner.first.gap ++ inner.text ++ q.chars) := by
  rw [text, pieces, Piece.written, List.flatMap_append, flatMap_chars]
  simp

theorem text_signed (p : Piece) (op : UnaryOp) (operand : Phrase) :
    (signed p op operand).text = p.text ++ (operand.first.gap ++ operand.text) := by
  rw [text, pieces, Piece.written, flatMap_chars]

theorem text_linked (op : Infix) (left : Phrase) (sign : Piece) (right : Phrase) :
    (linked op left sign right).text =
      left.text ++ (sign.chars ++ (right.first.gap ++ right.text)) := by
  obtain ⟨others, parts⟩ := left.pieces_eq_cons
  rw [text, text, pieces, parts, List.cons_append, Piece.written, Piece.written,
    List.flatMap_append, List.flatMap_cons, flatMap_chars]
  simp

theorem text_choice (test : Phrase) (mark : Piece) (yes : Phrase) (colon : Piece) (no : Phrase) :
    (choice test mark yes colon no).text =
      test.text ++ (mark.chars ++ (yes.first.gap ++ yes.text ++
        (colon.chars ++ (no.first.gap ++ no.text)))) := by
  obtain ⟨others, parts⟩ := test.pieces_eq_cons
  rw [text, text, pieces, parts, List.cons_append, Piece.written, Piece.written,
    List.flatMap_append, List.flatMap_cons, List.flatMap_append, List.flatMap_cons, flatMap_chars,
    flatMap_chars]
  simp

section Wrapping

variable {gap : List Char} {b : Bool} {φ : Phrase}

theorem legible_wrap (isGap : Gap b gap) (legible : φ.Legible) : (φ.wrap gap).Legible :=
  legible_group (whole_sign isGap (by decide)) (isPunct_sign gap "(") (legible.led .nil)
    (whole_sign .nil (by decide)) (isPunct_sign [] ")")

@[simp] theorem first_wrap : (φ.wrap gap).first = Piece.sign gap "(" := rfl

@[simp] theorem text_wrap : (φ.wrap gap).text = '(' :: (φ.text ++ [')']) := by
  rw [wrap, text_group, text_led, first_led]
  rfl

@[simp] theorem value_wrap (bindings : Bindings) :
    (φ.wrap gap).value bindings = φ.value bindings := by
  rw [wrap, value, value_led]

/-- The phrase as an operand under the strength `parent`. -/
def operand (parent : Precedence) (right : Bool) (gap : List Char) (φ : Phrase) : Phrase :=
  if φ.strength.needsParens parent right then φ.wrap gap else φ.led gap

/-- The phrase as the test of a conditional. -/
def asTest (gap : List Char) (φ : Phrase) : Phrase :=
  if φ.strength ≤ .conditional then φ.wrap gap else φ.led gap

variable {parent : Precedence} {right : Bool}

@[simp] theorem gap_operand : (φ.operand parent right gap).first.gap = gap := by
  unfold operand
  split
  · rfl
  · rw [first_led]; rfl

@[simp] theorem gap_asTest : (φ.asTest gap).first.gap = gap := by
  unfold asTest
  split
  · rfl
  · rw [first_led]; rfl

@[simp] theorem value_operand (bindings : Bindings) :
    (φ.operand parent right gap).value bindings = φ.value bindings := by
  unfold operand
  split <;> simp

@[simp] theorem value_asTest (bindings : Bindings) :
    (φ.asTest gap).value bindings = φ.value bindings := by
  unfold asTest
  split <;> simp

theorem ofList_text_wrap : String.ofList (φ.wrap gap).text = "(" ++ String.ofList φ.text ++ ")" := by
  rw [text_wrap]
  apply String.ext
  simp

theorem ofList_text_operand :
    String.ofList (φ.operand parent right gap).text =
      (Fragment.mk (String.ofList φ.text) φ.strength).operand parent right := by
  unfold operand Fragment.operand
  split
  · exact ofList_text_wrap
  · rw [text_led]

theorem ofList_text_asTest :
    String.ofList (φ.asTest gap).text =
      if φ.strength ≤ .conditional then "(" ++ String.ofList φ.text ++ ")"
      else String.ofList φ.text := by
  unfold asTest
  split
  · exact ofList_text_wrap
  · rw [text_led]

/-! ## Operands bind as tightly as they have to -/

theorem rank_le_of_needsParens {operand : Precedence}
    (free : operand.needsParens parent right = false) : parent.rank ≤ operand.rank := by
  simp only [Precedence.needsParens, Bool.or_eq_false_iff, decide_eq_false_iff_not] at free
  exact Nat.le_of_not_lt free.1.2

theorem rank_lt_of_needsParens {operand : Precedence}
    (free : operand.needsParens parent true = false) : parent.rank < operand.rank := by
  have loose := rank_le_of_needsParens free
  simp only [Precedence.needsParens, Bool.or_eq_false_iff, Bool.true_and,
    decide_eq_false_iff_not] at free
  refine Nat.lt_of_le_of_ne loose fun same => free.2 ?_
  revert same
  cases operand <;> cases parent <;> simp [Precedence.rank]

/-- Without parentheses on the left of an operator, the phrase is taken whole. -/
theorem power_lt_hold {op : Infix}
    (free : φ.strength.needsParens op.precedence (op = .binary .power) = false) :
    op.power < φ.hold := by
  by_cases raises : op = .binary .power
  · subst raises
    have tight : 14 < φ.rank := rank_lt_of_needsParens free
    rw [hold_of_fifteen_le_rank tight]
    decide
  · have tight := rank_le_of_needsParens free
    have other : op.power < 12 := by
      rcases op with op | op <;> cases op <;> first | decide | exact absurd rfl raises
    rw [rank_precedence] at tight
    cases φ with
    | linked op' left sign right =>
      have tight : op.power + 2 ≤ (linked op' left sign right).rank := tight
      rw [rank_linked] at tight
      show op.power < op'.rightLeast
      unfold Infix.rightLeast
      split
      · next same =>
        rw [same]
        exact other
      · omega
    | choice =>
      have := one_le_power op
      have tight : op.power + 2 ≤ 2 := tight
      omega
    | comma =>
      have tight : op.power + 2 ≤ 0 := tight
      omega
    | _ => exact Nat.lt_succ_of_lt other

/-- Without parentheses on the right of an operator, the phrase binds as tightly as it asks for. -/
theorem rightLeast_le_rank {op : Infix}
    (free : φ.strength.needsParens op.precedence (op ≠ .binary .power) = false) :
    op.rightLeast + 2 ≤ φ.rank := by
  by_cases raises : op = .binary .power
  · subst raises
    exact rank_le_of_needsParens free
  · have strict : decide (op ≠ .binary .power) = true := decide_eq_true raises
    rw [strict] at free
    have tight := rank_lt_of_needsParens free
    rw [rank_precedence] at tight
    rw [Infix.rightLeast, if_neg raises]
    exact Nat.succ_le_of_lt tight

theorem power_lt_hold_operand {op : LogicalOp} :
    (Infix.logical op).power < (φ.operand op.precedence false gap).hold := by
  unfold operand
  split
  · exact Nat.lt_of_le_of_lt (power_le _) (by simp [wrap, hold])
  · next free =>
    rw [hold_led]
    exact power_lt_hold (Bool.eq_false_iff.2 free)

theorem rightLeast_le_rank_operand {op : LogicalOp} :
    (Infix.logical op).rightLeast + 2 ≤ (φ.operand op.precedence true gap).rank := by
  unfold operand
  split
  · exact Nat.le_trans (Nat.add_le_add_right (rightLeast_le_thirteen _) 2) (by simp [wrap])
  · next free =>
    rw [rank_led]
    exact rightLeast_le_rank (Bool.eq_false_iff.2 free)

theorem three_le_rank_asTest : 3 ≤ (φ.asTest gap).rank := by
  unfold asTest
  split
  · simp [wrap]
  · next tight =>
    rw [rank_led]
    exact Nat.lt_of_not_le tight

theorem one_le_rank_branch : 1 ≤ (φ.operand .assignment false gap).rank := by
  unfold operand
  split
  · simp [wrap]
  · next free =>
    rw [rank_led]
    exact rank_le_of_needsParens (Bool.eq_false_iff.2 free)

end Wrapping

end Phrase

end TidyScript
