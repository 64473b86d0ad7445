import TidyScript.Token.Regex
import TidyScript.Token.Template
import TidyScript.Proofs.Token.Quoted

/-!
# Where templates and regular expressions end

Both literals run to a mark that closes them, and nothing behind that mark has a part in
them, apart from the flags of a regular expression. Neither does the place where they
stand, which only occurs in errors.
-/

namespace TidyScript.Token

theorem Scan.eq_done_of_after {α : Type} {scan : Scan α} {count n : Nat} {v : α}
    (done : scan.after count = .done n v) : ∃ m, scan = .done m v ∧ n = count + m := by
  obtain ⟨m, result⟩ := scan
  simp only [Scan.after, Scan.done, Scan.mk.injEq] at done ⊢
  exact ⟨m, ⟨rfl, done.2⟩, done.1.symm⟩

theorem Scan.after_done {α : Type} (count m : Nat) (v : α) :
    (Scan.done m v).after count = .done (count + m) v := rfl

/-- What ends in a character ends in it also with other characters in front. -/
theorem last_behind {c : Char} {k m : Nat} {cs behind : List Char} (parts : cs.drop k = behind)
    (ends : 0 < m ∧ m ≤ behind.length ∧ behind[m - 1]? = some c) :
    0 < k + m ∧ k + m ≤ cs.length ∧ cs[k + m - 1]? = some c := by
  subst parts
  obtain ⟨positive, bound, last⟩ := ends
  rw [List.length_drop] at bound
  rw [List.getElem?_drop, ← Nat.add_sub_assoc positive] at last
  exact ⟨by omega, by omega, last⟩

/-- A regular expression takes characters, and the last one of them is a slash. -/
theorem regexTail_last {start n : Nat} {inClass : Bool} {cs : List Char}
    (done : regexTail start inClass cs = .done n ()) :
    0 < n ∧ n ≤ cs.length ∧ cs[n - 1]? = some '/' := by
  fun_induction regexTail start inClass cs generalizing n with
  | case1 => exact absurd done Scan.fail_ne_done
  | case2 => exact absurd done Scan.fail_ne_done
  | case3 => exact absurd done Scan.fail_ne_done
  | case7 =>
      obtain ⟨rfl, _⟩ := Scan.done_inj done
      simp_all
  | _ =>
      rename_i ih
      obtain ⟨m, inner, rfl⟩ := Scan.eq_done_of_after done
      exact last_behind (by simp) (ih inner)

/-- A regular expression literal ends at its closing slash, whatever stands behind it. -/
theorem regexTail_exchange {start n : Nat} {inClass : Bool} {cs cs' : List Char}
    (done : regexTail start inClass cs = .done n ()) (start' : Nat)
    (same : cs'.take n = cs.take n) : regexTail start' inClass cs' = .done n () := by
  fun_induction regexTail start inClass cs generalizing n cs' with
  | case1 => exact absurd done Scan.fail_ne_done
  | case2 => exact absurd done Scan.fail_ne_done
  | case3 => exact absurd done Scan.fail_ne_done
  | case4 inClass d behind sameLine ih =>
    obtain ⟨m, inner, rfl⟩ := Scan.eq_done_of_after done
    obtain ⟨rest, rfl, tail⟩ := exists_of_take_two same
    rw [regexTail.eq_def]
    simp [ih inner tail, Scan.after_done]
  | case7 =>
    obtain ⟨rfl, _⟩ := Scan.done_inj done
    obtain ⟨rest, rfl, _⟩ := exists_of_take (m := 0) same
    rw [regexTail.eq_def]
    simp_all
  | _ =>
    rename_i ih
    obtain ⟨m, inner, rfl⟩ := Scan.eq_done_of_after done
    obtain ⟨rest, rfl, tail⟩ := exists_of_take same
    rw [regexTail.eq_def]
    simp [*, ih inner tail, Scan.after_done]

/-- A template takes characters, and the last one of them is a backtick. -/
theorem templateTail_last {top : TemplateFrame} {outer : List TemplateFrame} {offset n : Nat}
    {cs : List Char} (done : templateTail top outer offset cs = .done n ()) :
    0 < n ∧ n ≤ cs.length ∧ cs[n - 1]? = some '\x60' := by
  fun_induction templateTail top outer offset cs generalizing n with
  | case1 => exact absurd done Scan.fail_ne_done
  | case2 =>
      obtain ⟨rfl, _⟩ := Scan.done_inj done
      simp_all
  | case4 => exact absurd done Scan.fail_ne_done
  | case11 => exact absurd done Scan.fail_ne_done
  | case12 =>
      rename_i ih
      obtain ⟨m, inner, rfl⟩ := Scan.eq_done_of_after done
      exact last_behind (by rw [Nat.add_comm]; rfl) (ih inner)
  | _ =>
      rename_i ih
      obtain ⟨m, inner, rfl⟩ := Scan.eq_done_of_after done
      exact last_behind (by simp) (ih inner)

/-- A template literal ends at its closing backtick, whatever stands behind it. Of the open
templates only the number of their open braces matters. -/
theorem templateTail_exchange {top : TemplateFrame} {outer outer' : List TemplateFrame}
    {offset n : Nat} {cs cs' : List Char} (done : templateTail top outer offset cs = .done n ())
    (start' : Nat) (depths : outer'.map TemplateFrame.depth = outer.map TemplateFrame.depth)
    (offset' : Nat) (same : cs'.take n = cs.take n) :
    templateTail ⟨start', top.depth⟩ outer' offset' cs' = .done n () := by
  fun_induction templateTail top outer offset cs generalizing n start' outer' offset' cs' with
  | case1 => exact absurd done Scan.fail_ne_done
  | case4 => exact absurd done Scan.fail_ne_done
  | case11 => exact absurd done Scan.fail_ne_done
  | case2 =>
    obtain ⟨rfl, _⟩ := Scan.done_inj done
    obtain ⟨rest, rfl, _⟩ := exists_of_take (m := 0) same
    rw [templateTail.eq_def]
    simp_all
  | case3 =>
    rename_i ih
    obtain ⟨m, inner, rfl⟩ := Scan.eq_done_of_after done
    obtain ⟨rest, rfl, tail⟩ := exists_of_take same
    obtain ⟨⟨start', _⟩, frames, rfl, rfl, behind⟩ := List.map_eq_cons_iff.1 depths
    rw [templateTail.eq_def]
    simp [*, ih inner start' behind _ tail, Scan.after_done]
  | case5 =>
    rename_i inText _ _ _ _ ih
    obtain ⟨m, inner, rfl⟩ := Scan.eq_done_of_after done
    obtain ⟨rest, rfl, tail⟩ := exists_of_take_two same
    rw [inText] at ih ⊢
    rw [templateTail.eq_def]
    simp [ih inner _ depths _ tail, Scan.after_done]
  | case6 top outer offset d behind =>
    rename_i opens ih
    obtain ⟨m, inner, rfl⟩ := Scan.eq_done_of_after done
    simp only [Bool.and_eq_true, decide_eq_true_eq] at opens
    obtain ⟨rfl, head⟩ := opens
    obtain ⟨behind, rfl⟩ := List.head?_eq_some_iff.1 head
    obtain ⟨rest, rfl, tail⟩ := exists_of_take_two same
    rw [templateTail.eq_def]
    simp [*, ih inner _ depths _ tail, Scan.after_done]
  | case7 top outer offset d behind =>
    rename_i inText _ _ _ ih
    obtain ⟨m, inner, rfl⟩ := Scan.eq_done_of_after done
    obtain ⟨rest, rfl, tail⟩ := exists_of_take same
    -- The scanner looks at the next character, and that one is still taken.
    have head : rest.head? = behind.head? := by
      simpa [List.head?_take, (templateTail_last inner).1.ne'] using congrArg List.head? tail
    rw [inText] at ih ⊢
    rw [templateTail.eq_def]
    simp [*, ih inner _ depths _ tail, Scan.after_done]
  | case10 =>
    rename_i ih
    obtain ⟨m, inner, rfl⟩ := Scan.eq_done_of_after done
    obtain ⟨rest, rfl, tail⟩ := exists_of_take same
    have again {frame} (depth : frame.depth = _) := ih inner offset' (List.map_eq_cons_iff.2
      ⟨frame, outer', rfl, depth, depths⟩) (offset' + '\x60'.utf8Size) tail
    rw [templateTail.eq_def]
    simp [*, Scan.after_done]
  | case12 top outer offset d behind =>
    rename_i quote literal value found ih
    obtain ⟨m, inner, rfl⟩ := Scan.eq_done_of_after done
    rw [Nat.add_assoc] at same
    obtain ⟨rest, rfl, tail⟩ := exists_of_take same
    have isQuote : isQuote d = true := by rwa [Token.isQuote, Bool.or_comm]
    have scan : quotedTail d offset behind = .done literal.length value := by
      rw [Scan.done, ← found]
    have first : rest.take literal.length = behind.take literal.length := by
      simpa [List.take_take] using congrArg (List.take literal.length) tail
    have after : (rest.drop literal.length).take m = (behind.drop literal.length).take m := by
      rw [List.take_drop, List.take_drop, tail]
    rw [templateTail.eq_def]
    simp only [*, quotedTail_exchange isQuote scan _ first, Scan.done]
    exact congrArg (Scan.after _) (ih inner start' depths _ after)
  | _ =>
    rename_i ih
    obtain ⟨m, inner, rfl⟩ := Scan.eq_done_of_after done
    obtain ⟨rest, rfl, tail⟩ := exists_of_take same
    rw [templateTail.eq_def]
    simp [*, ih inner _ depths _ tail, Scan.after_done]

/-! ## Whole literals -/

section Literals

variable {c : Char} {start : Nat} {tail rest : List Char}

theorem quoted_exchange (isQuote : isQuote c = true) {value : String}
    (done : quoted c start (c :: (tail ++ rest)) = .done (c :: tail).length value) (start' : Nat)
    (rest' : List Char) :
    quoted c start' (c :: (tail ++ rest')) = .done (c :: tail).length value := by
  obtain ⟨m, w, inner, count, rfl⟩ := Scan.eq_done_of_after_map done
  have length : m = tail.length := by
    rw [List.length_cons] at count
    omega
  subst length
  rw [quoted, List.tail_cons, quotedTail_exchange isQuote inner start' (by simp),
    Scan.after_map_done, count]

theorem template_exchange
    (done : template start (c :: (tail ++ rest)) = .done (c :: tail).length ()) (start' : Nat)
    (rest' : List Char) : template start' (c :: (tail ++ rest')) = .done (c :: tail).length () := by
  obtain ⟨m, inner, count⟩ := Scan.eq_done_of_after done
  have length : m = tail.length := by
    rw [List.length_cons] at count
    omega
  subst length
  have again : templateTail ⟨start', 0⟩ [] (start' + 1) (tail ++ rest') = .done tail.length () :=
    templateTail_exchange inner start' rfl _ (by simp)
  rw [template, List.tail_cons, again, Scan.after_done, count]

/-- A regular expression is a body up to its closing slash, and flags. -/
theorem regex_parts (done : regex start (c :: (tail ++ rest)) = .done (c :: tail).length ()) :
    ∃ body flags, tail = body ++ flags ∧
      regexTail start false (body ++ (flags ++ rest)) = .done body.length () ∧
        ((flags ++ rest).takeWhile isWordPart).length = flags.length := by
  unfold regex at done
  dsimp only [List.tail_cons, Scan.after] at done
  generalize scan : regexTail start false (tail ++ rest) = found at done
  obtain ⟨m, _ | ⟨⟩⟩ := found
  · exact absurd done Scan.fail_ne_done
  · have count := (Scan.done_inj done).1
    simp only [Nat.add_comm 1, List.drop_succ_cons, List.length_cons, wordTail] at count
    have within : m ≤ tail.length := by omega
    rw [List.drop_append_of_le_length within] at count
    refine ⟨tail.take m, tail.drop m, (List.take_append_drop m tail).symm, ?_, ?_⟩
    · rw [← List.append_assoc, List.take_append_drop, scan, List.length_take_of_le within]
      rfl
    · rw [List.length_drop]
      omega

theorem regex_of_parts {body flags : List Char} (parts : tail = body ++ flags)
    (closed : regexTail start false (body ++ (flags ++ rest)) = .done body.length ())
    (ended : ((flags ++ rest).takeWhile isWordPart).length = flags.length) :
    regex start (c :: (tail ++ rest)) = .done (c :: tail).length () := by
  subst parts
  unfold regex
  dsimp only [List.tail_cons]
  rw [List.append_assoc, closed]
  simp only [Scan.after, Scan.done, Nat.add_comm 1, List.drop_succ_cons, List.drop_left, wordTail,
    ended, List.length_cons, List.length_append]
  rw [Nat.add_right_comm]

theorem regex_length_le {cs : List Char} {n : Nat} (done : regex start (c :: cs) = .done n ()) :
    n ≤ (c :: cs).length := by
  unfold regex at done
  dsimp only [List.tail_cons, Scan.after] at done
  generalize scan : regexTail start false cs = found at done
  obtain ⟨m, _ | ⟨⟩⟩ := found
  · exact absurd done Scan.fail_ne_done
  · have bound := (regexTail_last scan).2.1
    have flags := (List.takeWhile_prefix (l := cs.drop m) isWordPart).length_le
    have count := (Scan.done_inj done).1
    simp only [Nat.add_comm 1, List.drop_succ_cons, wordTail] at count
    rw [List.length_drop] at flags
    rw [List.length_cons]
    omega

theorem regex_exchange (done : regex start (c :: (tail ++ rest)) = .done (c :: tail).length ())
    {rest' : List Char} (clear : Clear isWordPart rest') (start' : Nat) :
    regex start' (c :: (tail ++ rest')) = .done (c :: tail).length () := by
  obtain ⟨body, flags, parts, closed, ended⟩ := regex_parts done
  exact regex_of_parts parts (regexTail_exchange closed start' (by simp))
    ((takeWhile_length_exchange ended.le clear).trans ended)

theorem regex_place (done : regex start (c :: (tail ++ rest)) = .done (c :: tail).length ())
    (start' : Nat) : regex start' (c :: (tail ++ rest)) = .done (c :: tail).length () := by
  obtain ⟨body, flags, parts, closed, ended⟩ := regex_parts done
  exact regex_of_parts parts (regexTail_exchange closed start' (by simp)) ended

end Literals

end TidyScript.Token
