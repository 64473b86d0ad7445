import TidyScript.Program.Source
import TidyScript.Proofs.Text.Boundary

/-!
# What binary search finds

When a test fails on a first part of the tokens and holds on the rest, binary search finds the
place between the two parts. Tokens that stand one behind the other are ordered by where they start
and by where they end, so a search for either finds what a scan of all tokens finds: the tokens
inside a span, the first from an offset on and the last in front of one.
-/

namespace TidyScript

namespace Token

variable {test : Token → Bool} {tokens : Array Token}

/-- The search keeps the place between failure and success inside its range. -/
theorem searchBetween_eq {place : Nat} (fails : ∀ i token, i < place → tokens[i]? = some token →
      test token = false)
    (holds : ∀ i token, place ≤ i → tokens[i]? = some token → test token = true)
    (low high : Nat) (lower : low ≤ place) (upper : place ≤ high) (bounded : high ≤ tokens.size) :
    searchBetween test tokens low high = place := by
  fun_induction searchBetween test tokens low high with
  | case1 low high some middle token here yes ih =>
    refine ih lower (Nat.le_of_not_lt fun beyond => ?_) (by omega)
    rw [fails middle token beyond here] at yes
    cases yes
  | case2 low high some middle token here no ih =>
    refine ih (Nat.lt_of_not_le fun beyond => ?_) upper bounded
    exact no (holds middle token beyond here)
  | case3 low high some middle none =>
    have : middle < tokens.size := by omega
    simp [this] at none
  | case4 low high closed => omega

/-- **Binary search finds the place where the test starts to hold**, if it goes on holding there. -/
theorem exists_firstIndex
    (lasts : tokens.toList.Pairwise fun a b => test a = true → test b = true) :
    ∃ front back, tokens.toList = front ++ back ∧ firstIndex test tokens = front.length ∧
      (∀ token ∈ front, test token = false) ∧ ∀ token ∈ back, test token = true := by
  obtain ⟨front, back, whole, fails, holds⟩ : ∃ front back, tokens.toList = front ++ back ∧
      (∀ token ∈ front, test token = false) ∧ ∀ token ∈ back, test token = true := by
    generalize tokens.toList = row at lasts
    induction row with
    | nil => exact ⟨[], [], rfl, by simp, by simp⟩
    | cons token row ih =>
      rw [List.pairwise_cons] at lasts
      by_cases here : test token = true
      · exact ⟨[], token :: row, rfl, by simp,
          List.forall_mem_cons.2 ⟨here, fun other mem => lasts.1 other mem here⟩⟩
      · obtain ⟨front, back, rfl, fails, holds⟩ := ih lasts.2
        exact ⟨token :: front, back, rfl,
          List.forall_mem_cons.2 ⟨Bool.eq_false_iff.2 here, fails⟩, holds⟩
  refine ⟨front, back, whole, searchBetween_eq ?_ ?_ 0 _ (Nat.zero_le _) ?_ (Nat.le_refl _), fails,
    holds⟩
  · intro i token before here
    rw [← Array.getElem?_toList, whole, List.getElem?_append_left before] at here
    exact fails token (List.mem_of_getElem? here)
  · intro i token behind here
    rw [← Array.getElem?_toList, whole, List.getElem?_append_right behind] at here
    exact holds token (List.mem_of_getElem? here)
  · rw [← Array.length_toList, whole, List.length_append]
    exact Nat.le_add_right ..

end Token

/-- The tokens inside a span are those from the one at its start to the one at its end. -/
theorem filter_contains {front read back : List Token} {first last : Token} {span : Span}
    (ordered : (front ++ (read ++ back)).Pairwise fun a b => a.span.stop ≤ b.span.start)
    (written : ∀ token ∈ front ++ (read ++ back), token.span.start < token.span.stop)
    (head : read.head? = some first) (tail : read.getLast? = some last)
    (start : first.span.start = span.start) (stop : last.span.stop = span.stop) :
    (front ++ (read ++ back)).filter (fun token => span.contains token.span) = read := by
  obtain ⟨_, inner, before⟩ := List.pairwise_append.1 ordered
  obtain ⟨inOrder, _, behind⟩ := List.pairwise_append.1 inner
  have early : front.filter (fun token => span.contains token.span) = [] := by
    refine List.filter_eq_nil_iff.2 fun token mem => ?_
    have := before token mem first (List.mem_append_left _ (List.mem_of_head? head))
    have := written token (by simp [mem])
    rw [Span.contains_iff]
    omega
  have late : back.filter (fun token => span.contains token.span) = [] := by
    refine List.filter_eq_nil_iff.2 fun token mem => ?_
    have := behind last (List.mem_of_getLast? tail) token mem
    have := written token (by simp [mem])
    rw [Span.contains_iff]
    omega
  have all : read.filter (fun token => span.contains token.span) = read := by
    refine List.filter_eq_self.2 fun token mem => Span.contains_iff.2 ?_
    have := Span.within_ends (fun token mem => Nat.le_of_lt (written token (by simp [mem]))) inOrder
      head tail token mem
    omega
  rw [List.filter_append, List.filter_append, early, all, late, List.nil_append, List.append_nil]

namespace Program

variable {program : Program}
  (ordered : program.tokens.toList.Pairwise fun a b => a.span.stop ≤ b.span.start)
  (written : ∀ token ∈ program.tokens, token.span.start < token.span.stop)

include ordered written

/-- The tokens in front of an offset, and those that start at it or behind it. -/
theorem exists_from (offset : Nat) : ∃ front back, program.tokens.toList = front ++ back ∧
    Token.firstIndex (fun token => !(token.span.start < offset)) program.tokens = front.length ∧
      (∀ token ∈ front, token.span.start < offset) ∧ ∀ token ∈ back, offset ≤ token.span.start := by
  have lasts : program.tokens.toList.Pairwise fun a b =>
      (!decide (a.span.start < offset)) = true → (!decide (b.span.start < offset)) = true := by
    refine ordered.imp_of_mem fun {a b} memA _ before => ?_
    have := written a (by simpa using memA)
    simp only [Bool.not_eq_true', decide_eq_false_iff_not]
    omega
  simpa using Token.exists_firstIndex lasts

/-- The tokens that end at an offset or in front of it, and those that end behind it. -/
theorem exists_upTo (offset : Nat) : ∃ front back, program.tokens.toList = front ++ back ∧
    Token.firstIndex (fun token => !(token.span.stop ≤ offset)) program.tokens = front.length ∧
      (∀ token ∈ front, token.span.stop ≤ offset) ∧ ∀ token ∈ back, offset < token.span.stop := by
  have lasts : program.tokens.toList.Pairwise fun a b =>
      (!decide (a.span.stop ≤ offset)) = true → (!decide (b.span.stop ≤ offset)) = true := by
    refine ordered.imp_of_mem fun {a b} _ memB before => ?_
    have := written b (by simpa using memB)
    simp only [Bool.not_eq_true', decide_eq_false_iff_not]
    omega
  simpa using Token.exists_firstIndex lasts

/-- **The tokens inside a span are those that a scan finds**, also where the span cuts through
tokens or runs backwards. -/
theorem tokensIn_eq_filter (span : Span) : program.tokensIn span =
    program.tokens.toList.filter fun token => span.contains token.span := by
  obtain ⟨front, back, whole, first, early, inside⟩ := exists_from ordered written span.start
  obtain ⟨front', back', whole', last, inside', late⟩ := exists_upTo ordered written span.stop
  have before : front.filter (fun token => span.contains token.span) = [] :=
    List.filter_eq_nil_iff.2 fun token mem => by
      simp [Span.contains_iff, Nat.not_le.2 (early token mem)]
  have behind : back'.filter (fun token => span.contains token.span) = [] :=
    List.filter_eq_nil_iff.2 fun token mem => by
      simp [Span.contains_iff, Nat.not_le.2 (late token mem)]
  rw [tokensIn, first, last, Array.toList_extract, List.extract_eq_take_drop, whole,
    List.drop_left, List.filter_append, before, List.nil_append]
  rcases List.append_eq_append_iff.1 (whole.symm.trans whole') with
    ⟨middle, rfl, rfl⟩ | ⟨middle, rfl, rfl⟩
  · have all : middle.filter (fun token => span.contains token.span) = middle :=
      List.filter_eq_self.2 fun token mem =>
        Span.contains_iff.2 ⟨inside token (by simp [mem]), inside' token (by simp [mem])⟩
    rw [List.filter_append, all, behind]
    simp
  · rw [List.filter_append] at behind
    rw [(List.append_eq_nil_iff.1 behind).2]
    simp

/-- The first token from an offset on is the first that a scan finds. -/
theorem tokenFrom?_eq_find? (offset : Nat) : program.tokenFrom? offset =
    program.tokens.toList.find? fun token => offset ≤ token.span.start := by
  obtain ⟨front, back, whole, first, early, inside⟩ := exists_from ordered written offset
  have none : front.find? (fun token => offset ≤ token.span.start) = none :=
    List.find?_eq_none.2 fun token mem => by simp [early token mem]
  rw [tokenFrom?, first, ← Array.getElem?_toList, whole, List.find?_append, none]
  cases back with
  | nil => simp
  | cons token back => simp [inside token (by simp)]

theorem tokenBefore?_eq_getLast? (offset : Nat) : program.tokenBefore? offset =
    (program.tokens.toList.filter fun token => token.span.stop ≤ offset).getLast? := by
  obtain ⟨front, back, whole, last, inside, late⟩ := exists_upTo ordered written offset
  have all : front.filter (fun token => token.span.stop ≤ offset) = front :=
    List.filter_eq_self.2 fun token mem => decide_eq_true (inside token mem)
  have none : back.filter (fun token => token.span.stop ≤ offset) = [] :=
    List.filter_eq_nil_iff.2 fun token mem => by simp [late token mem]
  rw [tokenBefore?, last, whole, List.filter_append, all, none, List.append_nil,
    List.getLast?_eq_getElem?]
  cases count : front.length with
  | zero => simp [List.length_eq_zero_iff.1 count]
  | succ index =>
    show program.tokens[index]? = _
    rw [← Array.getElem?_toList, whole, List.getElem?_append_left (by omega), Nat.add_sub_cancel]

omit ordered written in
/-- The tokens inside a span from the first to the last of some tokens that stand in a row. -/
theorem tokensIn_eq {front read back : List Token} {first last : Token}
    (tokens : program.tokens = (front ++ (read ++ back)).toArray)
    (ordered : (front ++ (read ++ back)).Pairwise fun a b => a.span.stop ≤ b.span.start)
    (written : ∀ token ∈ front ++ (read ++ back), token.span.start < token.span.stop)
    (head : read.head? = some first) (tail : read.getLast? = some last) :
    program.tokensIn ⟨first.span.start, last.span.stop⟩ = read := by
  have whole : program.tokens.toList = front ++ (read ++ back) := by rw [tokens]
  rw [tokensIn_eq_filter (whole ▸ ordered) (by simpa [tokens] using written), whole]
  exact filter_contains ordered written head tail rfl rfl

end Program

end TidyScript
