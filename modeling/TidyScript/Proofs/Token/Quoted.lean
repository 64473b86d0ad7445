import Mathlib.Data.List.TakeWhile
import TidyScript.Token.Quoted
import TidyScript.Proofs.Token.Numeral

/-!
# Where a string literal ends

A string literal ends at its quote, and the text behind the quote has no part in it. Only
escapes look ahead, and the one with braces looks for its closing brace through all of the
text. But a quote is neither a brace nor a digit, so an escape that looks past the closing
quote finds no number and denotes what it would denote without looking.
-/

namespace TidyScript.Token

/-! ## Outcomes of a scanner -/

theorem Scan.done_inj {α : Type} {m n : Nat} {v w : α} (same : Scan.done m v = .done n w) :
    m = n ∧ v = w := by
  simpa [Scan.done] using same

theorem Scan.fail_ne_done {α : Type} {m n : Nat} {error : LexError} {v : α} :
    Scan.fail m error ≠ Scan.done n v := by
  simp [Scan.fail, Scan.done]

theorem Scan.eq_done_of_after_map {α β : Type} {f : α → β} {scan : Scan α} {count n : Nat} {v : β}
    (done : (scan.map f).after count = .done n v) :
    ∃ m w, scan = .done m w ∧ n = count + m ∧ v = f w := by
  obtain ⟨m, _ | w⟩ := scan
  · simp [Scan.after, Scan.map, Scan.done, Except.map] at done
  · simp only [Scan.after, Scan.map, Scan.done, Except.map, Scan.mk.injEq, Except.ok.injEq] at done
    exact ⟨m, w, rfl, done.1.symm, done.2.symm⟩

theorem Scan.after_map_done {α β : Type} (f : α → β) (count m : Nat) (w : α) :
    ((Scan.done m w).map f).after count = .done (count + m) (f w) := rfl

/-! ## Texts that begin alike -/

theorem exists_of_take {c : Char} {rest cs : List Char} {m : Nat}
    (same : cs.take (1 + m) = (c :: rest).take (1 + m)) :
    ∃ rest', cs = c :: rest' ∧ rest'.take m = rest.take m := by
  rw [Nat.add_comm] at same
  cases cs with
  | nil => cases same
  | cons d cs =>
    rw [List.take_succ_cons, List.take_succ_cons, List.cons.injEq] at same
    exact ⟨cs, by rw [same.1], same.2⟩

theorem exists_of_take_two {c d : Char} {rest cs : List Char} {m : Nat}
    (same : cs.take (2 + m) = (c :: d :: rest).take (2 + m)) :
    ∃ rest', cs = c :: d :: rest' ∧ rest'.take m = rest.take m := by
  rw [show 2 + m = 1 + (1 + m) by omega] at same
  obtain ⟨_, rfl, next⟩ := exists_of_take same
  obtain ⟨rest', rfl, tail⟩ := exists_of_take next
  exact ⟨rest', rfl, tail⟩

/-! ## Escapes and quotes -/

/-- The last character of a string literal is its quote. -/
theorem quotedTail_last {quote : Char} {start : Nat} {cs : List Char} {n : Nat} {v : List Char}
    (done : quotedTail quote start cs = .done n v) :
    n ≤ cs.length ∧ ∃ body, cs.take n = body ++ [quote] := by
  fun_induction quotedTail quote start cs generalizing n v with
  | case1 => exact absurd done Scan.fail_ne_done
  | case2 rest =>
      obtain ⟨rfl, _⟩ := Scan.done_inj done
      exact ⟨by simp, [], by simp⟩
  | case3 => exact absurd done Scan.fail_ne_done
  | case4 => exact absurd done Scan.fail_ne_done
  | case5 first behind escape notQuote sameLine =>
      rename_i ih
      obtain ⟨m, w, inner, rfl, rfl⟩ := Scan.eq_done_of_after_map done
      obtain ⟨bound, body, last⟩ := ih inner
      have count : 2 + (Escape.read first behind).length + m =
          (Escape.read first behind).length + m + 1 + 1 := by omega
      have positive : 0 < m := by
        cases m with
        | zero => simp at last
        | succ m => exact m.succ_pos
      rw [List.length_drop] at bound
      refine ⟨by simp only [List.length_cons]; omega,
        '\\' :: first :: (behind.take (Escape.read first behind).length ++ body), ?_⟩
      rw [count, List.take_succ_cons, List.take_succ_cons, List.take_add, last]
      simp
  | case6 c rest notQuote sameLine slash ih =>
      obtain ⟨m, w, inner, rfl, rfl⟩ := Scan.eq_done_of_after_map done
      obtain ⟨bound, body, last⟩ := ih inner
      refine ⟨by rw [List.length_cons]; omega, c :: body, ?_⟩
      rw [Nat.add_comm, List.take_succ_cons, last, List.cons_append]

/-- The characters that quote strings. -/
def isQuote (c : Char) : Bool :=
  c = '"' || c = '\''

theorem digitValue?_of_isQuote {quote : Char} (isQuote : isQuote quote = true) :
    Number.digitValue? quote = none := by
  simp only [Token.isQuote, Bool.or_eq_true, decide_eq_true_eq] at isQuote
  rcases isQuote with rfl | rfl <;> decide

theorem ofDigits?_of_mem {c : Char} {radix value : Nat} {digits : List Char}
    (noDigit : Number.digitValue? c = none) (mem : c ∈ digits) :
    Number.ofDigits? radix value digits = none := by
  induction digits generalizing value with
  | nil => cases mem
  | cons d digits ih =>
    rw [Number.ofDigits?]
    rcases List.mem_cons.1 mem with rfl | mem
    · simp [Number.digitIn?, noDigit]
    · simp [ih mem]

theorem readNatural?_of_isQuote {quote : Char} {radix limit : Nat} {digits : List Char}
    (isQuote : isQuote quote = true) (mem : quote ∈ digits) :
    Number.readNatural? radix limit digits = none := by
  have still : quote ∈ Number.withoutPlus digits := by
    unfold Number.withoutPlus
    split
    · rcases List.mem_cons.1 mem with rfl | mem
      · exact absurd isQuote (by decide)
      · exact mem
    · exact mem
  simp only [Number.readNatural?, ofDigits?_of_mem (digitValue?_of_isQuote isQuote) still]
  split <;> rfl

namespace Escape

variable {quote letter : Char} {w : List Char}

/-- An escape of a fixed number of digits does not look past a quote. -/
theorem fixed_append (isQuote : isQuote quote = true) (mem : quote ∈ w) (count : Nat)
    (rest : List Char) : fixed letter count (w ++ rest) = fixed letter count w := by
  by_cases within : count ≤ w.length
  · simp only [fixed, List.take_append_of_le_length within]
  · have noDigits (tail : List Char) : ((w ++ tail).take count).all Number.isHexDigit = false := by
      have here : quote ∈ (w ++ tail).take count := by
        rw [List.take_append, List.take_of_length_le (by omega : w.length ≤ count)]
        exact List.mem_append_left _ mem
      refine List.all_eq_false.2 ⟨quote, here, ?_⟩
      simp [Number.isHexDigit, Number.digitIn?, digitValue?_of_isQuote isQuote]
    have here := noDigits []
    rw [List.append_nil] at here
    simp [fixed, noDigits rest, here]

/-- An escape in braces ends at the first closing brace. -/
theorem braced_closed {digits : List Char} (before : '\x7d' ∉ digits) (tail : List Char) :
    braced letter (digits ++ '\x7d' :: tail) =
      (Number.readNatural? 16 (Number.capacity 32) digits).elim ⟨1, [letter]⟩
        fun code => ⟨digits.length + 2, [(char? code).getD letter]⟩ := by
  have found : (digits ++ '\x7d' :: tail).takeWhile (fun c => decide (c ≠ '\x7d')) = digits :=
    takeWhile_run (fun c mem => decide_eq_true fun brace => before (brace ▸ mem)) (by simp [Clear])
  simp only [braced, found, List.length_append, List.length_cons, Nat.lt_add_right_iff_pos,
    Nat.succ_pos, if_true]
  cases Number.readNatural? 16 (Number.capacity 32) digits <;> rfl

/-- An escape in braces does not look past a quote. -/
theorem braced_append (isQuote : isQuote quote = true) (mem : quote ∈ w) (rest : List Char) :
    braced letter (w ++ rest) = braced letter w := by
  by_cases closed : '\x7d' ∈ w
  · obtain ⟨digits, behind, rfl, before⟩ := List.eq_append_cons_of_mem closed
    rw [List.append_assoc, List.cons_append, braced_closed before, braced_closed before]
  · -- No brace closes the escape before the quote, so its digits are no number.
    have inside : ∀ c ∈ w, decide (c ≠ '\x7d') = true :=
      fun c memW => decide_eq_true fun brace => closed (brace ▸ memW)
    have unread (tail : List Char) : braced letter (w ++ tail) = ⟨1, [letter]⟩ := by
      have none := @readNatural?_of_isQuote quote 16 (Number.capacity 32) _ isQuote
        (List.mem_append_left (tail.takeWhile fun c => decide (c ≠ '\x7d')) mem)
      simp only [braced, List.takeWhile_append_of_pos inside, none]
      split <;> rfl
    have here := unread []
    rw [List.append_nil] at here
    rw [unread rest, here]

theorem read_u_of_ne_brace {c : Char} (noBrace : c ≠ '\x7b') (cs : List Char) :
    read 'u' (c :: cs) = fixed 'u' 4 (c :: cs) := by
  simp only [read]
  split
  · next same =>
    cases same
    exact absurd rfl noBrace
  · rfl

/-- No escape looks past a quote behind it. -/
theorem read_append (isQuote : isQuote quote = true) (mem : quote ∈ w) (first : Char)
    (rest : List Char) : read first (w ++ rest) = read first w := by
  obtain ⟨c, w, rfl⟩ : ∃ c rest, w = c :: rest :=
    List.exists_cons_of_ne_nil (List.ne_nil_of_mem mem)
  by_cases unicode : first = 'u'
  · subst unicode
    by_cases brace : c = '\x7b'
    · subst brace
      have inside : quote ∈ w := by
        rcases List.mem_cons.1 mem with rfl | mem
        · exact absurd isQuote (by decide)
        · exact mem
      exact braced_append isQuote inside rest
    · rw [List.cons_append, read_u_of_ne_brace brace, read_u_of_ne_brace brace,
        ← List.cons_append, fixed_append isQuote mem]
  · unfold read
    split <;> try rfl
    · exact fixed_append isQuote mem 2 rest
    · exact absurd rfl unicode

end Escape

/-- **A string literal ends at its quote, whatever stands behind it.** -/
theorem quotedTail_exchange {quote : Char} (isQuote : isQuote quote = true) {start n : Nat}
    {cs cs' : List Char} {v : List Char} (done : quotedTail quote start cs = .done n v)
    (start' : Nat) (same : cs'.take n = cs.take n) :
    quotedTail quote start' cs' = .done n v := by
  fun_induction quotedTail quote start cs generalizing n v cs' with
  | case1 => exact absurd done Scan.fail_ne_done
  | case3 => exact absurd done Scan.fail_ne_done
  | case4 => exact absurd done Scan.fail_ne_done
  | case2 rest =>
    obtain ⟨rfl, rfl⟩ := Scan.done_inj done
    obtain ⟨rest, rfl, _⟩ := exists_of_take (m := 0) same
    rw [quotedTail.eq_def]
    simp_all
  | case5 first behind escape notQuote sameLine =>
    rename_i ih
    obtain ⟨m, u, inner, rfl, rfl⟩ := Scan.eq_done_of_after_map done
    rw [Nat.add_assoc] at same
    obtain ⟨behind', rfl, tail⟩ := exists_of_take_two same
    -- The closing quote stands behind the escape, so the escape ends in front of it.
    obtain ⟨bound, body, last⟩ := quotedTail_last inner
    have mem : quote ∈ behind.take (escape.length + m) := by
      rw [List.take_add, last]
      simp
    have unread {w : List Char}
        (part : w.take (escape.length + m) = behind.take (escape.length + m)) :
        Escape.read first w = Escape.read first (behind.take (escape.length + m)) := by
      rw [← part] at mem ⊢
      rw [← Escape.read_append isQuote mem first (w.drop (escape.length + m)),
        List.take_append_drop]
    have alike : Escape.read first behind' = escape := (unread tail).trans (unread rfl).symm
    have rest : (behind'.drop escape.length).take m = (behind.drop escape.length).take m := by
      rw [List.take_drop, List.take_drop, tail]
    rw [quotedTail.eq_def]
    simp [notQuote, alike, ih inner rest, Scan.after_map_done]
  | case6 c rest notQuote sameLine slash ih =>
    obtain ⟨m, u, inner, rfl, rfl⟩ := Scan.eq_done_of_after_map done
    obtain ⟨rest, rfl, tail⟩ := exists_of_take same
    rw [quotedTail.eq_def]
    simp [*, ih inner tail, Scan.after_map_done]

end TidyScript.Token
