import Mathlib.Data.List.TakeWhile
import TidyScript.Token.Numeral

/-!
# Where a number literal ends

The scanner of numbers looks at the characters behind a literal to find out that it is
over. What it finds there can be exchanged: the literal ends at the same place in front of
any text that does not begin with a digit, an underscore, a point or one of the letters
that occur in literals.

The same holds of any run of characters of one class, which is stated first.
-/

namespace TidyScript.Token

/-- The text does not begin with a character of the class. -/
def Clear (part : Char → Bool) (text : List Char) : Prop :=
  ∀ c, text.head? = some c → part c = false

section Runs

variable {part : Char → Bool} {run rest rest' : List Char}

theorem Clear.takeWhile_eq_nil (clear : Clear part rest) : rest.takeWhile part = [] := by
  cases rest with
  | nil => rfl
  | cons c rest => simp [clear c rfl]

theorem Clear.any_head? (clear : Clear part rest) : rest.head?.any part = false := by
  cases rest with
  | nil => rfl
  | cons c rest => exact clear c rfl

theorem Clear.mono {part' : Char → Bool} (clear : Clear part rest)
    (fewer : ∀ c, part' c = true → part c = true) : Clear part' rest := fun c head =>
  Bool.eq_false_iff.2 fun inside => Bool.eq_false_iff.1 (clear c head) (fewer c inside)

theorem takeWhile_run (inside : ∀ c ∈ run, part c = true) (clear : Clear part rest) :
    (run ++ rest).takeWhile part = run := by
  rw [List.takeWhile_append_of_pos inside, clear.takeWhile_eq_nil, List.append_nil]

theorem takeWhile_eq_run (exact : ((run ++ rest).takeWhile part).length = run.length) :
    (run ++ rest).takeWhile part = run :=
  (List.prefix_of_prefix_length_le (List.takeWhile_prefix part) (List.prefix_append run rest)
    exact.le).eq_of_length exact

/-- A run of characters of a class that ends within a text is as long in front of any other text
that the class does not continue in. -/
theorem takeWhile_length_exchange (within : ((run ++ rest).takeWhile part).length ≤ run.length)
    (clear : Clear part rest') :
    ((run ++ rest').takeWhile part).length = ((run ++ rest).takeWhile part).length := by
  induction run with
  | nil =>
    rw [List.nil_append, List.nil_append, clear.takeWhile_eq_nil]
    exact (Nat.le_zero.1 within).symm
  | cons c run ih =>
    simp only [List.cons_append, List.takeWhile_cons] at within ⊢
    split
    · next inside =>
      rw [if_pos inside, List.length_cons, List.length_cons] at within
      rw [List.length_cons, List.length_cons, ih (Nat.le_of_succ_le_succ within)]
    · rfl

end Runs

/-! ## Literals lie within the text -/

theorem decimalLength_le (pointSeen : Bool) (cs : List Char) :
    decimalLength pointSeen cs ≤ cs.length := by
  induction cs generalizing pointSeen with
  | nil => exact Nat.le_refl 0
  | cons c cs ih =>
    rw [decimalLength, List.length_cons]
    split
    · exact Nat.succ_le_succ (ih pointSeen)
    · split
      · exact Nat.succ_le_succ (ih true)
      · exact Nat.zero_le _

theorem exponentLength_le (cs : List Char) : exponentLength cs ≤ cs.length := by
  cases cs with
  | nil => exact Nat.le_refl 0
  | cons c cs =>
    rw [exponentLength, List.length_cons]
    dsimp only
    have plain := (List.takeWhile_prefix (l := cs) Char.isDigit).length_le
    have behind := (List.takeWhile_prefix (l := cs.tail) Char.isDigit).length_le
    split
    · by_cases signed : (cs.head?.any fun sign => sign = '+' || sign = '-') = true
      · simp only [signed, if_true]
        have nonempty : 0 < cs.length := by
          cases cs with
          | nil => simp at signed
          | cons d cs => simp
        rw [List.length_tail] at behind
        split <;> omega
      · rw [Bool.not_eq_true] at signed
        simp only [signed, Bool.false_eq_true, if_false]
        split <;> omega
    · exact Nat.zero_le _

theorem mantissaLength_le (cs : List Char) : mantissaLength cs ≤ cs.length := by
  have decimal : decimalNumeralLength cs ≤ cs.length := by
    have whole := decimalLength_le false cs
    have tail := exponentLength_le (cs.drop (decimalLength false cs))
    rw [List.length_drop] at tail
    unfold decimalNumeralLength
    omega
  unfold mantissaLength
  split
  · next mark rest =>
    have digits := (List.takeWhile_prefix (l := rest)
      fun c => Number.isHexDigit c || c = '_').length_le
    split
    · simp only [List.length_cons]
      omega
    · exact decimal
  · exact decimal

theorem numeralLength_le (cs : List Char) : numeralLength cs ≤ cs.length := by
  have mantissa := mantissaLength_le cs
  unfold numeralLength
  split
  · next final =>
    have nonempty : cs.drop (mantissaLength cs) ≠ [] := by
      intro ended
      rw [ended] at final
      cases final
    rw [ne_eq, List.drop_eq_nil_iff] at nonempty
    omega
  · omega

/-! ## Digits and their marks -/

/-- The characters that can continue a number literal. -/
def isNumeralPart (c : Char) : Bool :=
  c.isDigit || c = '_' || c = '.' || Number.isHexDigit c || (radixOf? c).isSome || c = 'n'

/-- The characters that can continue a number literal before its final letter. -/
def isMantissaPart (c : Char) : Bool :=
  c.isDigit || c = '_' || c = '.' || Number.isHexDigit c || (radixOf? c).isSome

theorem decimalLength_exchange {w rest rest' : List Char} {pointSeen : Bool}
    (within : decimalLength pointSeen (w ++ rest) ≤ w.length) (clear : Clear isMantissaPart rest') :
    decimalLength pointSeen (w ++ rest') = decimalLength pointSeen (w ++ rest) := by
  induction w generalizing pointSeen with
  | nil =>
    have none : decimalLength pointSeen rest' = 0 := by
      cases rest' with
      | nil => rfl
      | cons c rest' =>
        have stops := clear c rfl
        simp only [isMantissaPart, Bool.or_eq_false_iff, decide_eq_false_iff_not] at stops
        simp [decimalLength, stops]
    rw [List.nil_append, List.nil_append, none]
    exact (Nat.le_zero.1 within).symm
  | cons c w ih =>
    simp only [List.cons_append, decimalLength] at within ⊢
    split
    · next digit =>
      rw [if_pos digit, List.length_cons] at within
      rw [ih (by omega)]
    · next digit =>
      rw [if_neg digit] at within
      split
      · next point =>
        rw [if_pos point, List.length_cons] at within
        rw [ih (by omega)]
      · rfl

theorem isHexDigit_of_exponent {c : Char} (exponent : (c = 'e' || c = 'E') = true) :
    Number.isHexDigit c = true := by
  simp only [Bool.or_eq_true, decide_eq_true_eq] at exponent
  rcases exponent with rfl | rfl <;> decide

theorem exponentLength_ne_one (cs : List Char) : exponentLength cs ≠ 1 := by
  cases cs with
  | nil => decide
  | cons c cs =>
    rw [exponentLength]
    dsimp only
    split_ifs <;> omega

/-- The signs that an exponent can have. -/
def isSign (c : Char) : Bool :=
  c = '+' || c = '-'

/-- A sign changes an exponent only when it stands right behind the letter of one, and this is not
where an exponent ends. -/
theorem exponentLength_exchange {x rest rest' : List Char}
    (within : exponentLength (x ++ rest) ≤ x.length) (clear : Clear isMantissaPart rest')
    (unsigned : exponentLength (x ++ rest) = x.length ∨ Clear isSign rest') :
    exponentLength (x ++ rest') = exponentLength (x ++ rest) := by
  have noDigit : Clear Char.isDigit rest' := clear.mono fun c digit => by
    simp [isMantissaPart, digit]
  match x, within, unsigned with
  | [], within, _ =>
    rw [Nat.le_zero.1 within, List.nil_append]
    cases rest' with
    | nil => rfl
    | cons c rest' =>
      have stops := clear c rfl
      simp only [isMantissaPart, Bool.or_eq_false_iff] at stops
      rw [exponentLength, if_neg]
      intro letter
      exact absurd stops.1.2 (by simp [isHexDigit_of_exponent letter])
  | [c], within, unsigned =>
    have none : exponentLength ([c] ++ rest) = 0 := by
      have := exponentLength_ne_one ([c] ++ rest)
      rw [List.length_singleton] at within
      omega
    have noSign : rest'.head?.any isSign = false := by
      rw [none] at unsigned
      exact (unsigned.resolve_left (by simp)).any_head?
    rw [none, List.singleton_append, exponentLength]
    split
    · unfold isSign at noSign
      simp [noSign, noDigit.takeWhile_eq_nil]
    · rfl
  | c :: d :: x, within, _ =>
    simp only [List.cons_append, exponentLength, List.head?_cons, Option.any_some, List.tail_cons,
      List.length_cons] at within ⊢
    by_cases signed : (d = '+' || d = '-') = true
    · simp only [signed, if_true] at within ⊢
      split
      · next letter =>
        rw [if_pos letter] at within
        have digits : ((x ++ rest).takeWhile Char.isDigit).length ≤ x.length := by
          split at within <;> omega
        rw [takeWhile_length_exchange digits noDigit]
      · rfl
    · simp only [signed, Bool.false_eq_true, if_false] at within ⊢
      split
      · next letter =>
        rw [if_pos letter] at within
        have digits : ((d :: x ++ rest).takeWhile Char.isDigit).length ≤ (d :: x).length := by
          rw [List.cons_append, List.length_cons]
          split at within <;> omega
        have same := takeWhile_length_exchange digits noDigit
        rw [List.cons_append, List.cons_append] at same
        rw [same]
      · rfl

theorem mantissaLength_of_radix {mark : Char} (radix : (radixOf? mark).isSome = true)
    (rest : List Char) : mantissaLength ('0' :: mark :: rest) =
      2 + (rest.takeWhile fun c => Number.isHexDigit c || c = '_').length := by
  rw [mantissaLength, if_pos radix]

theorem mantissaLength_of_decimal {cs : List Char}
    (plain : ∀ mark rest, cs = '0' :: mark :: rest → (radixOf? mark).isSome = false) :
    mantissaLength cs = decimalNumeralLength cs := by
  unfold mantissaLength
  split
  · next mark rest => rw [if_neg (by simp [plain mark rest rfl])]
  · rfl

theorem decimalNumeralLength_exchange {m rest rest' : List Char}
    (within : decimalNumeralLength (m ++ rest) ≤ m.length) (clear : Clear isMantissaPart rest')
    (unsigned : decimalNumeralLength (m ++ rest) = m.length ∨ Clear isSign rest') :
    decimalNumeralLength (m ++ rest') = decimalNumeralLength (m ++ rest) := by
  unfold decimalNumeralLength at within unsigned ⊢
  have digits : decimalLength false (m ++ rest) ≤ m.length := by omega
  rw [decimalLength_exchange digits clear]
  simp only [List.drop_append_of_le_length digits] at within unsigned ⊢
  have behind := List.length_drop (i := decimalLength false (m ++ rest)) (l := m)
  have tail : exponentLength (m.drop (decimalLength false (m ++ rest)) ++ rest) ≤
      (m.drop (decimalLength false (m ++ rest))).length := by omega
  rw [exponentLength_exchange tail clear (unsigned.imp_left fun exact => by omega)]

theorem mantissaLength_exchange {m rest rest' : List Char}
    (within : mantissaLength (m ++ rest) ≤ m.length) (clear : Clear isMantissaPart rest')
    (unsigned : mantissaLength (m ++ rest) = m.length ∨ Clear isSign rest') :
    mantissaLength (m ++ rest') = mantissaLength (m ++ rest) := by
  by_cases marked : ∃ mark r, m ++ rest = '0' :: mark :: r ∧ (radixOf? mark).isSome = true
  · obtain ⟨mark, r, parts, radix⟩ := marked
    rw [parts, mantissaLength_of_radix radix] at within
    obtain ⟨digits, rfl⟩ : ∃ digits, m = '0' :: mark :: digits := by
      match m, parts, within with
      | [], _, within => simp only [List.length_nil] at within; omega
      | [_], _, within => simp only [List.length_singleton] at within; omega
      | _ :: _ :: digits, parts, _ =>
        simp only [List.cons_append, List.cons.injEq] at parts
        exact ⟨digits, by rw [parts.1, parts.2.1]⟩
    simp only [List.cons_append, List.cons.injEq, true_and] at parts
    subst parts
    have noHex : Clear (fun c => Number.isHexDigit c || c = '_') rest' :=
      clear.mono fun c hex => by
        simp only [Bool.or_eq_true] at hex
        rcases hex with hex | hex <;> simp [isMantissaPart, hex]
    have hex : ((digits ++ rest).takeWhile fun c => Number.isHexDigit c || c = '_').length ≤
        digits.length := by
      simp only [List.length_cons] at within
      omega
    simp only [List.cons_append, mantissaLength_of_radix radix]
    rw [takeWhile_length_exchange hex noHex]
  · have plain : ∀ mark r, m ++ rest = '0' :: mark :: r → (radixOf? mark).isSome = false :=
      fun mark r parts => by
        by_contra radix
        exact marked ⟨mark, r, parts, Bool.not_eq_false _ ▸ radix⟩
    rw [mantissaLength_of_decimal plain] at within unsigned ⊢
    refine (mantissaLength_of_decimal fun mark r parts => ?_).trans
      (decimalNumeralLength_exchange within clear unsigned)
    match m, parts, plain with
    | [], parts, _ =>
      have stops := clear '0' (by rw [← List.nil_append rest', parts]; rfl)
      exact absurd stops (by decide)
    | [_], parts, _ =>
      simp only [List.singleton_append, List.cons.injEq] at parts
      have stops := clear mark (by rw [parts.2]; rfl)
      simp only [isMantissaPart, Bool.or_eq_false_iff] at stops
      exact stops.2
    | _ :: _ :: digits, parts, plain =>
      simp only [List.cons_append, List.cons.injEq] at parts
      exact plain mark (digits ++ rest) (by simp [parts.1, parts.2.1])

theorem isNumeralPart_eq (c : Char) : isNumeralPart c = (isMantissaPart c || c = 'n') := rfl

/-- **A number literal that ends within a text ends there in front of any other text that cannot
continue it.** A sign continues no literal, but it may continue a text in which one ends. -/
theorem numeralLength_exchange {w rest rest' : List Char}
    (within : numeralLength (w ++ rest) ≤ w.length) (clear : Clear isNumeralPart rest')
    (unsigned : numeralLength (w ++ rest) = w.length ∨ Clear isSign rest') :
    numeralLength (w ++ rest') = numeralLength (w ++ rest) := by
  have clear' : Clear isMantissaPart rest' := clear.mono fun c part => by
    rw [isNumeralPart_eq, part, Bool.true_or]
  have notFinal : rest'.head? ≠ some 'n' := by
    intro head
    have stops := clear 'n' head
    simp [isNumeralPart] at stops
  unfold numeralLength at within unsigned ⊢
  have inside : mantissaLength (w ++ rest) ≤ w.length := by omega
  by_cases ends : mantissaLength (w ++ rest) = w.length
  · -- The text is over with the literal, which has no final letter then.
    rw [mantissaLength_exchange inside clear' (.inl ends), ends, List.drop_left, if_neg notFinal]
    rw [ends, List.drop_left] at within
    rw [List.drop_left, if_neg]
    intro final
    rw [if_pos final] at within
    omega
  · -- What stands behind the literal is in the text.
    obtain ⟨m, c, behind, rfl, count⟩ : ∃ m c behind, w = m ++ c :: behind ∧
        mantissaLength (w ++ rest) = m.length := by
      have some : w.drop (mantissaLength (w ++ rest)) ≠ [] := by
        rw [ne_eq, List.drop_eq_nil_iff]
        omega
      obtain ⟨c, behind, parts⟩ := List.exists_cons_of_ne_nil some
      refine ⟨w.take (mantissaLength (w ++ rest)), c, behind, ?_, ?_⟩
      · rw [← parts, List.take_append_drop]
      · rw [List.length_take]
        omega
    have same : mantissaLength (m ++ c :: behind ++ rest') = m.length := by
      by_cases final : c = 'n'
      · rw [List.append_assoc] at count ⊢
        rw [mantissaLength_exchange count.le (fun d head => ?_) (.inl count), count]
        obtain rfl : c = d := by simpa using head
        rw [final]
        decide
      · rw [mantissaLength_exchange inside clear', count]
        rw [count] at unsigned
        rw [List.append_assoc, List.drop_left, List.cons_append, List.head?_cons,
          if_neg (by simpa using final)] at unsigned
        exact unsigned.resolve_left (by simp) |> .inr
    rw [same, count]
    simp only [List.append_assoc, List.drop_left, List.cons_append, List.head?_cons]

end TidyScript.Token
