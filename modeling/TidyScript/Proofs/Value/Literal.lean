import Mathlib.Data.List.Infix
import TidyScript.Value.Basic
import TidyScript.Proofs.Token.Piece

/-!
# String literals read back

A text is written as a literal character by character, and most characters are read back whatever
stands behind them: an escape of one letter looks no further, and one in braces ends at its brace.
The null is the exception. It is written `\0`, and in front of a digit this escape denotes the
letter `0` and not the null, for otherwise it could be taken for an octal number. So the literal of
a text is always one string token, and it denotes that text exactly when no null stands in front of
a digit.
-/

namespace TidyScript

/-! ## Code points in hexadecimal -/

namespace Number

theorem ofDigits?_append (radix value : Nat) (xs ys : List Char) :
    ofDigits? radix value (xs ++ ys) =
      (ofDigits? radix value xs).bind fun read => ofDigits? radix read ys := by
  induction xs generalizing value with
  | nil => rfl
  | cons c xs ih => simp [ofDigits?, ih, Option.bind_assoc]

theorem ofDigits?_digitChar {digit : Nat} (small : digit < 16) (value : Nat) :
    ofDigits? 16 value [digit.digitChar] = some (value * 16 + digit) := by
  have numeral : ∀ digit < 16, digitIn? 16 digit.digitChar = some digit := by decide
  simp [ofDigits?, numeral digit small]

theorem ofDigits?_toDigits (n : Nat) : ofDigits? 16 0 (Nat.toDigits 16 n) = some n := by
  induction n using Nat.strongRecOn with
  | ind n ih =>
    rw [Nat.toDigits_eq_if (by decide)]
    split
    · next small => rw [ofDigits?_digitChar small, Nat.zero_mul, Nat.zero_add]
    · next large =>
      rw [ofDigits?_append, ih (n / 16) (by omega), Option.bind_some,
        ofDigits?_digitChar (Nat.mod_lt n (by decide)), Nat.div_add_mod']

theorem not_mem_toDigits {c : Char} (noDigit : digitValue? c = none) (n : Nat) :
    c ∉ Nat.toDigits 16 n := by
  intro mem
  have read := ofDigits?_toDigits n
  rw [Token.ofDigits?_of_mem noDigit mem] at read
  cases read

theorem readNatural?_toDigits {limit n : Nat} (lt : n < limit) :
    readNatural? 16 limit (Nat.toDigits 16 n) = some n := by
  have unsigned : withoutPlus (Nat.toDigits 16 n) = Nat.toDigits 16 n := by
    unfold withoutPlus
    split
    · next signed => exact absurd (signed ▸ List.mem_cons_self) (not_mem_toDigits (by decide) n)
    · rfl
  simp [readNatural?, unsigned, ofDigits?_toDigits, lt]

end Number

/-! ## Characters and escapes -/

namespace Text

theorem CharRanges.has_eq_false {ranges : CharRanges} {first last : Nat} {c : Char}
    (apart : ∀ range ∈ ranges, range.2 < first ∨ last < range.1) (ge : first ≤ c.toNat)
    (le : c.toNat ≤ last) : ranges.has c = false := by
  refine List.any_eq_false.2 fun range mem => ?_
  have := apart range mem
  simp only [Bool.and_eq_true, decide_eq_true_eq]
  omega

theorem quoteChar_of_isDigit {c : Char} (digit : c.isDigit = true) : quoteChar c = [c] := by
  have seen : isJoining c = false ∧ isUnprintable c = false := by
    have bounds : 48 ≤ c.toNat ∧ c.toNat ≤ 57 := by
      simpa [Char.isDigit, UInt32.le_iff_toNat_le] using digit
    exact ⟨CharRanges.has_eq_false (by decide +kernel) bounds.1 bounds.2,
      CharRanges.has_eq_false (by decide +kernel) bounds.1 bounds.2⟩
  unfold quoteChar
  repeat
    rw [if_neg (by rintro rfl; exact absurd digit (by decide))]
  simp [seen]

end Text

namespace Token

open Text (quoteChar quoteChar_of_isDigit)

theorem Escape.char?_toNat (c : Char) : char? c.toNat = some c :=
  dif_pos c.valid

/-- The escape that writes a character by its code point denotes the character. -/
theorem Escape.read_codePoint (c : Char) (tail : List Char) :
    read 'u' ('\x7b' :: (Nat.toDigits 16 c.toNat ++ '\x7d' :: tail)) =
      ⟨(Nat.toDigits 16 c.toNat).length + 2, [c]⟩ := by
  have code : Number.readNatural? 16 (Number.capacity 32) (Nat.toDigits 16 c.toNat) =
      some c.toNat := Number.readNatural?_toDigits c.val.toNat_lt
  change braced 'u' _ = _
  rw [braced_closed (Number.not_mem_toDigits (by decide) _), code, Option.elim_some, char?_toNat]
  rfl

/-! ## Quoted texts -/

/-- What a character of a quoted text is read as in front of `behind`. -/
def readBackChar (c : Char) (behind : List Char) : Char :=
  if c = '\x00' && behind.head?.any Char.isDigit then '0' else c

/-- What a quoted text is read as. -/
def readBack : List Char → List Char
  | [] => []
  | c :: cs => readBackChar c cs :: readBack cs

/-- A character is written as an escape that denotes it, the null in front of a digit apart, or it
is written as it is. -/
theorem quoteChar_cases (c : Char) (tail : List Char) :
    (∃ first more, quoteChar c = '\\' :: first :: more ∧
      Escape.read first (more ++ tail) = ⟨more.length, [readBackChar c tail]⟩) ∨
    (quoteChar c = [c] ∧ c ≠ '\x00' ∧ c ≠ '\r' ∧ c ≠ '\n' ∧ c ≠ '"' ∧ c ≠ '\\') := by
  unfold quoteChar
  split_ifs with null tab ret feed mark slash unseen
  · subst null
    refine .inl ⟨'0', [], rfl, ?_⟩
    simp only [Escape.read, readBackChar, List.nil_append]
    split <;> simp_all
  · exact .inl ⟨'t', [], rfl, by simp [Escape.read, readBackChar, tab]⟩
  · exact .inl ⟨'r', [], rfl, by simp [Escape.read, readBackChar, ret]⟩
  · exact .inl ⟨'n', [], rfl, by simp [Escape.read, readBackChar, feed]⟩
  · exact .inl ⟨'"', [], rfl, by simp [Escape.read, readBackChar, mark]⟩
  · exact .inl ⟨'\\', [], rfl, by simp [Escape.read, readBackChar, slash]⟩
  · refine .inl ⟨'u', '\x7b' :: (Nat.toDigits 16 c.toNat ++ ['\x7d']), rfl, ?_⟩
    simp [Escape.read_codePoint, readBackChar, null]
  · exact .inr ⟨rfl, null, ret, feed, mark, slash⟩

/-- Only a digit is written with a digit in front. -/
theorem quoteChar_head_isDigit (c : Char) (tail : List Char) :
    (quoteChar c ++ tail).head?.any Char.isDigit = c.isDigit := by
  obtain ⟨first, more, written, _⟩ | ⟨written, _⟩ := quoteChar_cases c tail
  · have noDigit : ¬ c.isDigit = true := fun digit => by
      rw [quoteChar_of_isDigit digit] at written
      cases written
    simpa [written] using noDigit
  · simp [written]

/-- One character of a quoted text is read. -/
theorem quotedTail_quoteChar (start : Nat) (c : Char) (tail : List Char) :
    quotedTail '"' start (quoteChar c ++ tail) =
      ((quotedTail '"' start tail).map (readBackChar c tail :: ·)).after (quoteChar c).length := by
  rw [quotedTail.eq_def]
  obtain ⟨first, more, written, denotes⟩ | ⟨written, visible, ret, feed, mark, slash⟩ :=
    quoteChar_cases c tail
  · simp [written, denotes, Nat.add_comm 2]
  · simp [written, readBackChar, visible, ret, feed, mark, slash]

theorem readBackChar_quoted (c : Char) (cs : List Char) :
    readBackChar c (cs.flatMap quoteChar ++ ['"']) = readBackChar c cs := by
  cases cs with
  | nil => simp [readBackChar]
  | cons d cs =>
    rw [readBackChar, List.flatMap_cons, List.append_assoc, quoteChar_head_isDigit]
    rfl

/-- A quoted text is read up to its closing quote. -/
theorem quotedTail_quoted (start : Nat) (cs : List Char) :
    quotedTail '"' start (cs.flatMap quoteChar ++ ['"']) =
      .done (cs.flatMap quoteChar ++ ['"']).length (readBack cs) := by
  induction cs with
  | nil => rw [quotedTail.eq_def]; rfl
  | cons c cs ih =>
    rw [List.flatMap_cons, List.append_assoc, quotedTail_quoteChar, ih, readBackChar_quoted,
      Scan.after_map_done, ← List.length_append, readBack]

theorem readBackChar_eq_iff (c : Char) (cs : List Char) :
    readBackChar c cs = c ↔ ¬ ∃ d : Char, d.isDigit = true ∧ ['\x00', d] <+: c :: cs := by
  by_cases null : c = '\x00'
  · subst null
    cases cs <;> simp [readBackChar]
  · simp [readBackChar, null, Ne.symm null]

/-- A quoted text is read as itself unless a null stands in front of a digit. -/
theorem readBack_eq_iff (cs : List Char) :
    readBack cs = cs ↔ ¬ ∃ d : Char, d.isDigit = true ∧ ['\x00', d] <:+: cs := by
  induction cs with
  | nil => simp [readBack]
  | cons c cs ih =>
    simp only [readBack, List.cons.injEq, readBackChar_eq_iff, ih, List.infix_cons_iff, and_or_left,
      exists_or, not_or]

end Token

namespace TokenRow

open Token

/-- A quoted text is one string token. -/
theorem ofString_quote (text : String) :
    ofString (Text.quote text) =
      .ok (Piece.row 0 [] [⟨[], .string (String.ofList (readBack text.toList)),
        (Text.quote text).toList⟩] []) := by
  let body := text.toList.flatMap Text.quoteChar ++ ['"']
  have written : (Text.quote text).toList = '"' :: body := String.toList_ofList
  have scan : quoted '"' 0 ('"' :: body) =
      .done ('"' :: body).length (String.ofList (readBack text.toList)) := by
    rw [quoted, List.tail_cons, quotedTail_quoted, Scan.after_map_done, Nat.add_comm]
    rfl
  have fits : Piece.Fits true [⟨[], .string (String.ofList (readBack text.toList)),
      (Text.quote text).toList⟩] [] := by
    rw [written]
    refine ⟨⟨?_, ⟨'"', body, 0, rfl, ?_⟩, ?_⟩, ⟨false, [], [], .nil, rfl, .inl rfl⟩⟩
    · rw [Piece.newline_eq .nil]
      exact .nil
    · rw [Piece.render, List.flatMap_nil, List.append_nil, List.append_nil]
      exact .string (by decide) (by simp [startsNumeral]) rfl scan
    · have firm : solid ['"'] = true := by decide
      simpa [solid] using firm
  have read := ofString_of_fits fits
  rwa [Piece.render, List.append_nil, List.flatMap_singleton, Piece.chars, List.nil_append,
    String.ofList_toList] at read

end TokenRow

namespace Value

open Token (readBack)

/-- **The literal of a text is one string token, and it denotes the text exactly when no null
stands in front of a digit.** Such a null becomes the letter `0`, all else is read back. -/
theorem literal_readsBack_iff (text : String) :
    let size := Text.byteLength (string text).literal.toList
    ∃ value, TokenRow.ofString (string text).literal =
        .ok ⟨[⟨.string value, (string text).literal, ⟨0, size⟩, false⟩],
          ⟨.eof, "", ⟨size, size⟩, false⟩, []⟩ ∧
      value.toList = readBack text.toList ∧
      (value = text ↔ ¬ ∃ d : Char, d.isDigit = true ∧ ['\x00', d] <:+: text.toList) := by
  intro size
  refine ⟨String.ofList (readBack text.toList), ?_, String.toList_ofList, ?_⟩
  · rw [literal, TokenRow.ofString_quote]
    simp [Piece.row, Piece.token, Piece.endMark, Piece.bytes, Piece.chars, Piece.newline,
      Piece.comments, Token.trivia, Token.Trivia.none, size, literal]
  · rw [← Token.readBack_eq_iff, ← String.toList_inj, String.toList_ofList]

/-- The null in front of the digit `1` is written `\01`, which is read as the letters `01`. -/
theorem literal_null_not_readsBack :
    ∃ row, TokenRow.ofString (string "\x001").literal = .ok row ∧
      row.tokens.map (·.kind) = [.string "01"] ∧ row.tokens.map (·.kind) ≠ [.string "\x001"] :=
  ⟨_, TokenRow.ofString_quote _, by decide, by decide⟩

end Value

end TidyScript
