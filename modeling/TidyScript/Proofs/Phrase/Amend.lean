import TidyScript.Proofs.Phrase.Airy
import TidyScript.Proofs.Phrase.Weight

/-!
# Amended phrases

A phrase is amended along its own structure: parts are exchanged for others that weigh less, and
the whole stays legible. Where nothing but laws are applied the value stays the same too.

A part that binds more tightly than every connective touches its neighbours. Its first word stays,
or a negation there becomes a parenthesis, or the part becomes a comparison and can only stand
where loose signs are around it. The same holds for its last word, which is a parenthesis where a
negation moves inward, and then the word behind it has to stand apart.
-/

namespace TidyScript

open Grammar

namespace Phrase

/-- The phrase `ψ` can be put in the place of `φ` after the given number of changes, apart from
the parentheses that the place may ask for. With `negating` set, negations may have moved inward. -/
structure Amended (airy : Prop) (negating : Bool) (changes : Nat) (φ ψ : Phrase) : Prop where
  neat : ψ.Neat airy
  gap : ψ.first.gap = φ.first.gap
  single : 1 ≤ φ.rank → 1 ≤ ψ.rank
  weight : ψ.weight + changes ≤ φ.weight
  value : negating = false → ∀ bindings, bindings "undefined" = none →
    ψ.value bindings = φ.value bindings
  front : 5 < φ.rank → ψ.first = φ.first ∨
    φ.first.isPunct "!" = true ∧ ψ.first = Piece.sign φ.first.gap "(" ∨ ψ.rank ≤ 10
  back : 5 < φ.rank → ψ.last.Alike φ.last ∨ ψ.rank ≤ 9 ∨
    ψ.rank ≤ 10 ∧ φ.last.isPunct ")" = true ∧ negating = true

namespace Amended

variable {airy : Prop} {negating : Bool} {m n k : Nat} {p q : Piece}
  {inner inner' left left' right right' test test' yes yes' no no' : Phrase}

theorem refl {φ : Phrase} (neat : φ.Neat airy) : φ.Amended airy negating 0 φ :=
  ⟨neat, rfl, id, Nat.le_refl _, fun _ _ _ => rfl, fun _ => .inl rfl,
    fun _ => .inl ⟨rfl, rfl⟩⟩

theorem group (legible : (Phrase.group p inner q).Legible)
    (amended : inner.Amended airy negating n inner') :
    (Phrase.group p inner q).Amended airy negating n (.group p inner' q) where
  neat := by
    obtain ⟨isOpen, _, isClose⟩ := legible.grouped
    refine ⟨legible_group (legible.wholes p (by simp [pieces])) isOpen amended.neat.legible
      (legible.wholes q (by simp [pieces])) isClose, fun asked => ?_⟩
    exact (airy_group isOpen amended.neat.legible.grouped isClose).2 (amended.neat.airy asked)
  gap := rfl
  single := id
  weight := amended.weight
  value := amended.value
  front _ := .inl rfl
  back _ := .inl ⟨rfl, rfl⟩

/-- What stood in front of a phrase that binds tightly stands in front of the new one. -/
theorem meets_first (amended : inner.Amended airy negating n inner') (legible : inner.Legible)
    (high : 5 < inner.rank) (tight : 10 < inner'.rank) (meets : p.Meets inner.first) :
    p.Meets inner'.first := by
  rcases amended.front high with same | ⟨isNot, same⟩ | loose
  · rwa [same]
  · rw [same]
    exact meets.opened isNot legible.whole_first.gap
  · omega

theorem signed {op : UnaryOp} (legible : (Phrase.signed p op inner).Legible)
    (legibleInner : inner.Legible) (amended : inner.Amended airy negating n inner')
    (tight : 15 ≤ inner'.rank) :
    (Phrase.signed p op inner).Amended airy negating n (.signed p op inner') := by
  obtain ⟨sign, _, high⟩ := legible.grouped
  have grouped' : (Phrase.signed p op inner').Grouped := ⟨sign, amended.neat.legible.grouped, tight⟩
  have behind := amended.meets_first legibleInner (by omega) (by omega)
    (isChain_signed.1 legible.chain).1
  refine ⟨⟨legible_signed grouped' (legible.wholes p (by simp [pieces])) behind amended.neat.legible,
    fun asked => (airy_signed grouped').2 (amended.neat.airy asked)⟩,
    rfl, id, ?_, ?_, fun _ => .inl rfl, fun _ => ?_⟩
  · have := amended.weight
    simp only [Phrase.weight, UnaryOp.weigh]
    split <;> omega
  · intro keeps bindings unbound
    rw [Phrase.value, Phrase.value, amended.value keeps bindings unbound]
  · rcases amended.back (by omega) with alike | loose | ⟨loose, _⟩
    · exact .inl alike
    · omega
    · omega

theorem nine_le_rightLeast {op : Infix} (high : 8 ≤ op.power) : 9 ≤ op.rightLeast := by
  unfold Infix.rightLeast
  split
  · next same =>
    rw [same]
    decide
  · omega

section Linked

variable {op : Infix} (neat : (linked op left p right).Neat airy)
  (amendedLeft : left.Amended airy negating m left') (holds : op.power < left'.hold)
include neat amendedLeft holds

/-- Only the parenthesis behind a negation can go in front of an operator that is a word. -/
theorem closed_of_not_alike (strong : op.power = 8) :
    left'.last.Alike left.last ∨ left.last.isPunct ")" = true ∧ negating = true := by
  have := power_add_two_le_rank holds
  have := power_add_two_le_rank neat.legible.grouped.2.1.2
  rcases amendedLeft.back (by omega) with alike | loose | ⟨_, closed⟩
  · exact .inl alike
  · omega
  · exact .inr closed

theorem last_meets (free : negating = true → airy) :
    left'.last.Meets p := by
  obtain ⟨link, ⟨_, before⟩, _⟩ := neat.legible.grouped
  have whole := neat.legible.wholes p (by simp [pieces])
  have legibleLeft := amendedLeft.neat.legible
  have isEnd := legibleLeft.grouped.isEnd_last
  have tight := power_add_two_le_rank holds
  have room : op.power = 8 → p.isWordLink = true → left'.last.Meets p := by
    intro strong word
    rcases closed_of_not_alike neat amendedLeft holds strong with alike | ⟨closed, negates⟩
    · exact alike.meets (isChain_linked.1 neat.legible.chain).1.2
    · obtain ⟨_, apart⟩ := ((airy_linked neat.legible.grouped).1 (neat.airy (free negates))).1
      obtain ⟨others, parts⟩ := left'.pieces_eq_concat
      exact Piece.meets_of_isWordLink legibleLeft.whole_last isEnd
        ((amendedLeft.neat.airy (free negates)).names _ (by simp [parts])) whole word (apart closed word)
  by_cases weak : op.power ≤ 8
  · rcases whole.link_cases link with ⟨text, isText, loose⟩ | ⟨word, strong⟩
    · exact Piece.meets_of_closing legibleLeft.whole_last isEnd whole (loose weak).2 isText
    · exact room strong word
  · have := power_add_two_le_rank before
    rcases amendedLeft.back (by omega) with alike | loose | ⟨loose, _⟩
    · exact alike.meets (isChain_linked.1 neat.legible.chain).1.2
    · omega
    · omega

theorem last_apart (asked : airy) : left'.last.Apart p := by
  obtain ⟨⟨_, apart⟩, _⟩ := (airy_linked neat.legible.grouped).1 (neat.airy asked)
  intro closed word
  have strong := (neat.legible.wholes p (by simp [pieces])).power_of_isWordLink neat.legible.grouped.1 word
  rcases closed_of_not_alike neat amendedLeft holds strong with alike | ⟨before, _⟩
  · exact apart (alike.isPunct ▸ closed) word
  · exact apart before word

theorem linked (free : negating = true → airy)
    (legibleRight : right.Legible) (amendedRight : right.Amended airy negating n right')
    (tight : op.rightLeast + 2 ≤ right'.rank) :
    (linked op left p right).Amended airy negating (m + n) (linked op left' p right') := by
  obtain ⟨link, ⟨_, before⟩, _, tightRight⟩ := neat.legible.grouped
  have whole := neat.legible.wholes p (by simp [pieces])
  have strongLeft := power_add_two_le_rank holds
  have oldLeft := power_add_two_le_rank before
  have weak := power_le_rightLeast op
  have behind : p.Meets right'.first := by
    by_cases loose : op.power ≤ 7
    · exact Piece.link_meets whole link loose amendedRight.neat.legible.whole_first
        amendedRight.neat.legible.grouped.isStart_first
    · have : 9 ≤ op.rightLeast := nine_le_rightLeast (by omega)
      exact amendedRight.meets_first legibleRight (by omega) (by omega)
        (isChain_linked.1 neat.legible.chain).2.1
  have grouped' : (Phrase.linked op left' p right').Grouped :=
    ⟨link, ⟨amendedLeft.neat.legible.grouped, holds⟩, amendedRight.neat.legible.grouped, tight⟩
  refine ⟨⟨legible_linked grouped' amendedLeft.neat.legible
    (last_meets neat amendedLeft holds free) whole behind amendedRight.neat.legible, fun asked => ?_⟩,
    amendedLeft.gap, fun _ => ?_, ?_, ?_, fun high => ?_, fun high => ?_⟩
  · exact (airy_linked grouped').2 ⟨⟨amendedLeft.neat.airy asked,
      last_apart neat amendedLeft holds asked⟩, amendedRight.neat.airy asked⟩
  · rw [rank_linked]
    omega
  · have := amendedLeft.weight
    have := amendedRight.weight
    cases op <;> simp only [Phrase.weight, Infix.weigh] <;> omega
  · intro keeps bindings unbound
    cases op <;> rw [Phrase.value, Phrase.value, amendedLeft.value keeps bindings unbound,
      amendedRight.value keeps bindings unbound]
  · rw [rank_linked] at high ⊢
    rcases amendedLeft.front (by omega) with same | opened | loose
    · exact .inl same
    · exact .inr (.inl opened)
    · exact .inr (.inr (by omega))
  · rw [rank_linked] at high ⊢
    rcases amendedRight.back (by omega) with alike | loose | ⟨loose, _⟩
    · exact .inl alike
    · exact .inr (.inl (by omega))
    · by_cases strong : 8 ≤ op.power
      · have := nine_le_rightLeast strong
        omega
      · exact .inr (.inl (by omega))

end Linked

theorem choice (legible : (Phrase.choice test p yes q no).Legible)
    (amendedTest : test.Amended airy negating m test') (tight : 3 ≤ test'.rank)
    (amendedYes : yes.Amended airy negating n yes') (amendedNo : no.Amended airy negating k no') :
    (Phrase.choice test p yes q no).Amended airy negating (m + (n + k)) (.choice test' p yes' q no') := by
  obtain ⟨signs, _, ⟨_, singleYes⟩, _, singleNo⟩ := legible.grouped
  have grouped' : (Phrase.choice test' p yes' q no').Grouped :=
    ⟨signs, ⟨amendedTest.neat.legible.grouped, tight⟩,
      ⟨amendedYes.neat.legible.grouped, amendedYes.single singleYes⟩,
      amendedNo.neat.legible.grouped, amendedNo.single singleNo⟩
  refine ⟨⟨legible_choice grouped' amendedTest.neat.legible (legible.wholes p (by simp [pieces]))
    amendedYes.neat.legible (legible.wholes q (by simp [pieces])) amendedNo.neat.legible,
    fun asked => ?_⟩, amendedTest.gap, fun _ => by simp, ?_, ?_, fun high => ?_, fun high => ?_⟩
  · exact (airy_choice grouped').2 ⟨amendedTest.neat.airy asked, amendedYes.neat.airy asked,
      amendedNo.neat.airy asked⟩
  · have := amendedTest.weight
    have := amendedYes.weight
    have := amendedNo.weight
    simp only [Phrase.weight]
    omega
  · intro keeps bindings unbound
    rw [Phrase.value, Phrase.value, amendedTest.value keeps bindings unbound,
      amendedYes.value keeps bindings unbound, amendedNo.value keeps bindings unbound]
  · rw [rank_choice] at high
    omega
  · rw [rank_choice] at high
    omega

theorem comma (legible : (Phrase.comma left p right).Legible)
    (amendedLeft : left.Amended airy negating m left') (amendedRight : right.Amended airy negating n right') :
    (Phrase.comma left p right).Amended airy negating (m + n) (.comma left' p right') := by
  obtain ⟨sign, ⟨_, single⟩, _⟩ := legible.grouped
  have grouped' : (Phrase.comma left' p right').Grouped :=
    ⟨sign, ⟨amendedLeft.neat.legible.grouped, amendedLeft.single single⟩,
      amendedRight.neat.legible.grouped⟩
  refine ⟨⟨legible_comma grouped' amendedLeft.neat.legible (legible.wholes p (by simp [pieces]))
    amendedRight.neat.legible, fun asked => ?_⟩, amendedLeft.gap, fun some => ?_, ?_, ?_,
    fun high => ?_, fun high => ?_⟩
  · exact (airy_comma grouped').2 ⟨amendedLeft.neat.airy asked, amendedRight.neat.airy asked⟩
  · rw [rank_comma] at some
    omega
  · have := amendedLeft.weight
    have := amendedRight.weight
    simp only [Phrase.weight]
    omega
  · intro keeps bindings unbound
    rw [Phrase.value, Phrase.value, amendedLeft.value keeps bindings unbound,
      amendedRight.value keeps bindings unbound]
  · rw [rank_comma] at high
    omega
  · rw [rank_comma] at high
    omega

end Amended

/-- The phrase `ψ` binds as its place asks for: as `φ` in that place does, or tightly enough for
anything, or as it may without parentheses. -/
def Suits (needs : Precedence → Bool) (φ ψ : Phrase) : Prop :=
  (ψ.rank = φ.rank ∧ ψ.hold = φ.hold) ∨ ψ.rank = 18 ∨ (φ.isGroup = false ∧ needs ψ.strength = false)

section Suits

variable {needs : Precedence → Bool} {φ ψ : Phrase} {op : Infix}

theorem Suits.power_lt_hold (suits : φ.Suits needs ψ) (holds : op.power < φ.hold)
    (asks : φ.isGroup = false → ∀ strength, needs strength = false →
      strength.needsParens op.precedence (op = .binary .power) = false) : op.power < ψ.hold := by
  rcases suits with ⟨_, hold⟩ | rank | ⟨bare, free⟩
  · rwa [hold]
  · rw [hold_of_fifteen_le_rank (by omega)]
    exact Nat.lt_of_le_of_lt (power_le _) (by decide)
  · exact Phrase.power_lt_hold (asks bare _ free)

theorem Suits.rightLeast_le_rank (suits : φ.Suits needs ψ) (tight : op.rightLeast + 2 ≤ φ.rank)
    (asks : φ.isGroup = false → ∀ strength, needs strength = false →
      strength.needsParens op.precedence (op ≠ .binary .power) = false) :
    op.rightLeast + 2 ≤ ψ.rank := by
  rcases suits with ⟨rank, _⟩ | rank | ⟨bare, free⟩
  · rwa [rank]
  · have := rightLeast_le_thirteen op
    omega
  · exact Phrase.rightLeast_le_rank (asks bare _ free)

/-- Where the place asks for a given strength at least, the phrase has it. -/
theorem Suits.le_rank (suits : φ.Suits needs ψ) {least : Nat} (tight : least ≤ φ.rank)
    (small : least ≤ 18)
    (asks : φ.isGroup = false → ∀ strength, needs strength = false → least ≤ strength.rank) :
    least ≤ ψ.rank := by
  rcases suits with ⟨rank, _⟩ | rank | ⟨bare, free⟩
  · rwa [rank]
  · omega
  · exact asks bare _ free

end Suits

end Phrase

end TidyScript
