import TidyScript.Proofs.Token.Quoted
import TidyScript.Proofs.Token.Row

/-!
# How rows of tokens are set

Two rows that read the same may be set differently: a token may start a line in one of them and not
in the other. The grammar heeds a line break in few places. An increment, a decrement and an arrow
have to stand on the line of the token before them. Behind `return`, `break`, `continue`, `yield`,
`async` and `await` a line break cuts off what could belong to the word. An import or export clause
ends at a line break.

Rows are set alike when they agree in all these places, and have no word `in` at the start of a
line. Whether `in` is an operator depends on what stands around a row, and a line break in front of
it makes two statements out of one where it is not.
-/

namespace TidyScript.Token

/-- Does the word start an import or export clause, with the given token behind it? -/
def opensClause (word next : Token) : Bool :=
  word.isKeyword "export" || word.isKeyword "import" && !(next.isPunct "(" || next.isPunct ".")

/-- Is there the start of a clause before the token? The tokens before it are given from the last to
the first. -/
def inClause : Token → List Token → Bool
  | _, [] => false
  | next, word :: others => opensClause word next || inClause word others

/-- Does a line break behind the token cut off what could belong to it? -/
def cutsOff (token : Token) : Bool :=
  token.isKeyword "return" || token.isKeyword "break" || token.isKeyword "continue" ||
    token.isKeyword "yield" || token.isIdentifier "async" || token.isIdentifier "await"

/-- Does the grammar heed a line break in front of the token? The tokens before it are given from
the last to the first. -/
def heedsBreak : List Token → Token → Bool
  | [], _ => false
  | previous :: others, token =>
    token.isPunct "++" || token.isPunct "--" || token.isPunct "=>" || previous.cutsOff ||
      (previous.isPunct "*" && others.head?.any (·.isKeyword "yield")) ||
      inClause token (previous :: others)

/-- Are the rows set alike, behind the given tokens? -/
def setAlike : List Token → List Token → List Token → Bool
  | before, a :: as, b :: bs =>
    (!heedsBreak before a || a.newlineBefore == b.newlineBefore) &&
      !(a.isKeyword "in" && (a.newlineBefore || b.newlineBefore)) && setAlike (a :: before) as bs
  | _, _, _ => true

/-- Two rows that read the same and are set alike, behind the given tokens. Their strings are in
quotes. -/
inductive Abreast : List Token → List Token → List Token → Prop where
  | nil (before : List Token) : Abreast before [] []
  | cons {before as bs : List Token} {a b : Token} (same : same a b = true)
      (breaks : heedsBreak before a = true → a.newlineBefore = b.newlineBefore)
      (inner : a.isKeyword "in" = true → a.newlineBefore = false ∧ b.newlineBefore = false)
      (quoted : ∀ value, a.kind = .string value → a.text.toList.head?.any isQuote = true)
      (rest : Abreast (a :: before) as bs) : Abreast before (a :: as) (b :: bs)

theorem abreast_of_setAlike {before as bs : List Token} (same : sameRow as bs = true)
    (set : setAlike before as bs = true)
    (quoted : ∀ a ∈ as, ∀ value, a.kind = .string value → a.text.toList.head?.any isQuote = true) :
    Abreast before as bs := by
  replace same := sameRow_iff_forall₂.1 same
  induction same generalizing before with
  | nil => exact .nil before
  | @cons a b as bs same _ ih =>
    simp only [setAlike, Bool.and_eq_true, Bool.or_eq_true, Bool.not_eq_true', beq_iff_eq] at set
    obtain ⟨⟨breaks, inner⟩, set⟩ := set
    refine .cons same (fun heeds => ?_) (fun isIn => ?_) (quoted a (List.mem_cons_self ..))
      (ih set fun c mem => quoted c (List.mem_cons_of_mem _ mem))
    · simpa [heeds] using breaks
    · simpa [isIn] using inner

theorem Abreast.length_eq {before as bs : List Token} (abreast : Abreast before as bs) :
    as.length = bs.length := by
  induction abreast with
  | nil => rfl
  | cons _ _ _ _ _ ih => exact congrArg (· + 1) ih

/-- Rows that start abreast go on abreast. -/
theorem Abreast.drop {before read read' as bs : List Token} (length : read.length = read'.length)
    (abreast : Abreast before (read ++ as) (read' ++ bs)) :
    Abreast (read.reverse ++ before) as bs := by
  induction read generalizing before read' with
  | nil =>
    obtain rfl : read' = [] := List.length_eq_zero_iff.1 length.symm
    exact abreast
  | cons a read ih =>
    cases read' with
    | nil => cases length
    | cons b read' =>
      cases abreast with
      | cons _ _ _ _ rest =>
        rw [List.reverse_cons, List.append_assoc]
        exact ih (Nat.succ.inj length) rest

/-! ## What tokens that mean the same agree in -/

theorem same_iff {a b : Token} :
    same a b = true ↔ a.kind = b.kind ∧ a.comparable = b.comparable := by
  unfold same comparable
  cases ha : a.kind <;> cases hb : b.kind <;> simp

variable {a b : Token} (same : same a b = true)
include same

theorem kind_eq_of_same : a.kind = b.kind :=
  (same_iff.1 same).1

theorem text_eq_of_same (noString : ∀ value, a.kind ≠ .string value) : a.text = b.text := by
  obtain ⟨kind, text⟩ := same_iff.1 same
  unfold comparable at text
  rw [← kind] at text
  split at text
  · next value is => exact absurd is (noString value)
  · exact text

/-- Tokens of one kind are tested by their texts. -/
theorem test_eq_of_same {kind : TokenKind} (noString : ∀ value, kind ≠ .string value)
    (test : String → Bool) :
    (decide (a.kind = kind) && test a.text) = (decide (b.kind = kind) && test b.text) := by
  rw [← kind_eq_of_same same]
  by_cases is : a.kind = kind
  · rw [text_eq_of_same same (is ▸ noString)]
  · simp [is]

theorem isPunct_eq_of_same (text : String) : a.isPunct text = b.isPunct text :=
  test_eq_of_same same (by simp) fun found => decide (found = text)

theorem isKeyword_eq_of_same (text : String) : a.isKeyword text = b.isKeyword text :=
  test_eq_of_same same (by simp) fun found => decide (found = text)

theorem isIdentifier_eq_of_same (text : String) : a.isIdentifier text = b.isIdentifier text :=
  test_eq_of_same same (by simp) fun found => decide (found = text)

end TidyScript.Token
