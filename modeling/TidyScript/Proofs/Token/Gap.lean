import Mathlib.Data.List.TakeWhile
import TidyScript.Proofs.Text.Cut
import TidyScript.Token.Trivia

/-!
# What stands between two tokens

A gap is a row of white space and complete comments. Passing over trivia and being a gap
are two sides of one thing: a gap in front of solid text is passed over exactly, and what
is passed over in front of more text is a gap. A line comment belongs to a gap only with
the line break that ends it, so a gap stays a gap whatever solid text is put behind it.
Only behind the last token may a line comment run to the end of the source.
-/

namespace TidyScript.Token

/-- Does the text start with neither white space nor a comment? -/
def solid : List Char → Bool
  | [] => true
  | c :: rest =>
    !isLineBreak c && !(Text.isBlank c || c = '\ufeff') &&
      !(c = '/' && (rest.head? = some '/' || rest.head? = some '*'))

/-- Characters that a line comment can hold. -/
def OneLine (text : List Char) : Prop :=
  ∀ c ∈ text, c ≠ '\n' ∧ c ≠ '\r'

/-- White space and complete comments. The flag says whether a line break is among them,
where a block comment counts by its line feeds. -/
inductive Gap : Bool → List Char → Prop where
  | nil : Gap false []
  | lineBreak {c : Char} {cs : List Char} {b : Bool} (breaks : isLineBreak c = true)
      (rest : Gap b cs) : Gap true (c :: cs)
  | blank {c : Char} {cs : List Char} {b : Bool} (stays : isLineBreak c = false)
      (blank : (Text.isBlank c || c = '\ufeff') = true) (rest : Gap b cs) : Gap b (c :: cs)
  | line {text cs : List Char} {c : Char} {b : Bool} (oneLine : OneLine text)
      (ends : c = '\n' ∨ c = '\r') (rest : Gap b (c :: cs)) :
      Gap b ('/' :: '/' :: (text ++ c :: cs))
  | block {body cs : List Char} {b : Bool} (closed : blockCommentTail? body = some body.length)
      (rest : Gap b cs) : Gap (body.contains '\n' || b) ('/' :: '*' :: (body ++ cs))

/-- What may stand behind the last token: a gap, and perhaps a line comment that the end
of the source ends. -/
def FinalGap (text : List Char) : Prop :=
  ∃ b gap tail, Gap b gap ∧ text = gap ++ tail ∧
    (tail = [] ∨ ∃ comment, tail = '/' :: '/' :: comment ∧ OneLine comment)

/-! ## Comments -/

/-- A comment in front of other text. A line comment ends where the line or the source does. -/
inductive IsComment : Bool → List Char → List Char → Prop where
  | line {body behind : List Char} (oneLine : OneLine body)
      (ends : ∀ c, behind.head? = some c → c = '\n' ∨ c = '\r') :
      IsComment false ('/' :: '/' :: body) behind
  | block {body behind : List Char} (closed : blockCommentTail? body = some body.length) :
      IsComment true ('/' :: '*' :: body) behind

theorem lineComment_append {text behind : List Char} (oneLine : OneLine text)
    (ends : ∀ c, behind.head? = some c → c = '\n' ∨ c = '\r') :
    lineComment (text ++ behind) = text := by
  rw [lineComment, List.takeWhile_append_of_pos fun d mem => by simpa using oneLine d mem]
  cases behind with
  | nil => simp
  | cons c behind => rcases ends c rfl with rfl | rfl <;> simp

theorem oneLine_lineComment (cs : List Char) : OneLine (lineComment cs) := by
  intro c mem
  simpa using List.mem_takeWhile_imp mem

theorem lineComment_cons_slash (rest : List Char) :
    lineComment ('/' :: rest) = '/' :: lineComment rest := by
  simp [lineComment]

theorem lineComment_append_drop (cs : List Char) :
    lineComment cs ++ cs.drop (lineComment cs).length = cs :=
  List.prefix_iff_eq_append.1 (List.takeWhile_prefix _)

/-- Behind a line comment the text is over or a line break comes. -/
theorem head?_drop_lineComment {cs : List Char} {c : Char}
    (head : (cs.drop (lineComment cs).length).head? = some c) : c = '\n' ∨ c = '\r' := by
  induction cs with
  | nil => cases head
  | cons d cs ih =>
    by_cases inside : (d ≠ '\n' && d ≠ '\r') = true
    · simp only [lineComment, List.takeWhile_cons, inside, if_true] at head
      exact ih head
    · simp only [lineComment, List.takeWhile_cons, inside] at head
      obtain rfl : d = c := by simpa using head
      simpa [Decidable.or_iff_not_imp_left] using inside

theorem blockCommentTail?_append {body : List Char} {n : Nat} (rest : List Char)
    (closed : blockCommentTail? body = some n) : blockCommentTail? (body ++ rest) = some n := by
  induction body generalizing n with
  | nil => cases closed
  | cons c body ih =>
    rw [blockCommentTail?] at closed
    rw [List.cons_append, blockCommentTail?]
    by_cases ends : (c = '*' && body.head? = some '/') = true
    · rw [if_pos ends] at closed
      have slash : (body ++ rest).head? = some '/' := by
        simp only [Bool.and_eq_true, decide_eq_true_eq] at ends
        rw [List.head?_append, ends.2]
        rfl
      simp only [Bool.and_eq_true, decide_eq_true_eq] at ends
      rw [if_pos (by simp [ends.1, slash]), ← closed]
    · rw [if_neg ends, Option.map_eq_some_iff] at closed
      obtain ⟨m, found, rfl⟩ := closed
      cases body with
      | nil => cases found
      | cons d body =>
        rw [ih found, Option.map_some]
        exact if_neg ends

theorem blockCommentTail?_take {cs : List Char} {n : Nat}
    (closed : blockCommentTail? cs = some n) :
    n ≤ cs.length ∧ blockCommentTail? (cs.take n) = some n := by
  induction cs generalizing n with
  | nil => cases closed
  | cons c cs ih =>
    rw [blockCommentTail?] at closed
    by_cases ends : (c = '*' && cs.head? = some '/') = true
    · rw [if_pos ends] at closed
      cases closed
      simp only [Bool.and_eq_true, decide_eq_true_eq] at ends
      obtain ⟨rest, rfl⟩ := List.head?_eq_some_iff.1 ends.2
      exact ⟨by simp, by simp [blockCommentTail?, ends.1]⟩
    · rw [if_neg ends, Option.map_eq_some_iff] at closed
      obtain ⟨m, found, rfl⟩ := closed
      obtain ⟨bound, shorter⟩ := ih found
      refine ⟨by simpa using bound, ?_⟩
      have head : (cs.take m).head? = cs.head? := by
        cases m with
        | zero => rw [List.take_zero] at shorter; cases shorter
        | succ m => cases cs <;> rfl
      rw [List.take_succ_cons, blockCommentTail?, head, if_neg ends, shorter, Option.map_some]

/-! ## Passing over a gap -/

theorem trivia_of_solid (offset : Nat) {cs : List Char} (firm : solid cs = true) :
    trivia offset cs = .none := by
  cases cs with
  | nil => rw [trivia]
  | cons c rest =>
    simp only [solid, Bool.and_eq_true, Bool.not_eq_true', Bool.and_eq_false_imp,
      decide_eq_true_eq, Bool.or_eq_false_iff, decide_eq_false_iff_not] at firm
    obtain ⟨⟨stays, visible, noBom⟩, noComment⟩ := firm
    rw [trivia, if_neg (by simp [stays]), if_neg (by simp [visible, noBom]),
      if_neg (by simpa using fun slash => (noComment slash).1),
      if_neg (by simpa using fun slash => (noComment slash).2)]

theorem trivia_of_isLineBreak {c : Char} (breaks : isLineBreak c = true) (offset : Nat)
    (rest : List Char) :
    trivia offset (c :: rest) = (trivia (offset + c.utf8Size) rest).after 1 true := by
  rw [trivia, if_pos breaks]

theorem trivia_of_isBlank {c : Char} (stays : isLineBreak c = false)
    (blank : (Text.isBlank c || c = '\ufeff') = true) (offset : Nat) (rest : List Char) :
    trivia offset (c :: rest) = (trivia (offset + c.utf8Size) rest).after 1 false := by
  rw [trivia, if_neg (by simp [stays]), if_pos blank]

/-- A comment is passed over, and then what comes behind it. -/
theorem trivia_of_isComment {block : Bool} {text behind : List Char}
    (comment : IsComment block text behind) (offset : Nat) :
    trivia offset (text ++ behind) =
      (trivia (offset + Text.byteLength text) behind).afterComment block offset text := by
  cases comment with
  | line oneLine ends =>
      rw [List.cons_append, List.cons_append, trivia, if_neg (by decide), if_neg (by decide),
        if_pos (by simp)]
      simp only [lineComment_cons_slash, lineComment_append oneLine ends, List.length_cons,
        List.drop_succ_cons, List.drop_left]
  | block closed =>
      rw [List.cons_append, List.cons_append, trivia, if_neg (by decide), if_neg (by decide),
        if_neg (by simp), if_pos (by simp), List.tail_cons, blockCommentTail?_append _ closed]
      simp only [Nat.add_comm 1, List.take_succ_cons, List.take_left, List.drop_succ_cons,
        List.drop_left]

theorem trivia_of_unclosed {body : List Char} (unclosed : blockCommentTail? body = none)
    (offset : Nat) : trivia offset ('/' :: '*' :: body) =
      { Trivia.none with unclosed := some offset } := by
  rw [trivia, if_neg (by decide), if_neg (by decide), if_neg (by simp), if_pos (by simp),
    List.tail_cons, unclosed]

/-- Induction over what is passed over at the start of a text. -/
theorem trivia_induction {motive : Nat → List Char → Prop}
    (firm : ∀ offset cs, solid cs = true → motive offset cs)
    (lineBreak : ∀ offset c rest, isLineBreak c = true →
      motive (offset + c.utf8Size) rest → motive offset (c :: rest))
    (blank : ∀ offset c rest, isLineBreak c = false → (Text.isBlank c || c = '\ufeff') = true →
      motive (offset + c.utf8Size) rest → motive offset (c :: rest))
    (comment : ∀ offset block text behind, IsComment block text behind →
      motive (offset + Text.byteLength text) behind → motive offset (text ++ behind))
    (unclosed : ∀ offset body, blockCommentTail? body = none →
      motive offset ('/' :: '*' :: body))
    (offset : Nat) (cs : List Char) : motive offset cs := by
  have opened {c d : Char} {rest : List Char} (slash : (c = '/' && rest.head? = some d) = true) :
      ∃ body, c = '/' ∧ rest = d :: body := by
    simpa [List.head?_eq_some_iff] using slash
  fun_induction trivia offset cs with
  | case1 offset => exact firm offset [] rfl
  | case2 offset c rest breaks ih => exact lineBreak offset c rest breaks ih
  | case3 offset c rest stays white ih =>
      exact blank offset c rest (by simpa using stays) white ih
  | case4 offset c rest stays visible slash text ih =>
      obtain ⟨body, rfl, rfl⟩ := opened slash
      simp only [text, lineComment_cons_slash, List.length_cons, List.drop_succ_cons] at ih
      have whole := comment offset _ _ _
        (.line (oneLine_lineComment body) fun _ => head?_drop_lineComment) ih
      rwa [List.cons_append, List.cons_append, lineComment_append_drop] at whole
  | case5 offset c rest stays visible notLine slash tail found text ih =>
      obtain ⟨body, rfl, rfl⟩ := opened slash
      obtain ⟨bound, closed⟩ := blockCommentTail?_take found
      simp only [text, List.tail_cons, Nat.add_comm 1, List.take_succ_cons,
        List.drop_succ_cons] at bound closed ih
      have whole := comment offset _ _ _
        (.block (by rw [closed, List.length_take_of_le bound])) ih
      rwa [List.cons_append, List.cons_append, List.take_append_drop] at whole
  | case6 offset c rest stays visible notLine slash notFound =>
      obtain ⟨body, rfl, rfl⟩ := opened slash
      exact unclosed offset body notFound
  | case7 offset c rest stays visible notLine notBlock =>
      simp only [Bool.and_eq_true, decide_eq_true_eq, not_and] at notLine notBlock
      refine firm offset (c :: rest) ?_
      simp only [solid, Bool.and_eq_true, Bool.not_eq_true', Bool.and_eq_false_imp,
        decide_eq_true_eq, Bool.or_eq_false_iff, decide_eq_false_iff_not]
      exact ⟨⟨by simpa using stays, by simpa using visible⟩,
        fun slash => ⟨notLine slash, notBlock slash⟩⟩

/-- What was found, and behind it what was found there. -/
def Trivia.append (found behind : Trivia) : Trivia :=
  ⟨found.length + behind.length, found.comments ++ behind.comments,
    found.lineBreak || behind.lineBreak, behind.unclosed⟩

theorem Trivia.append_after (found behind : Trivia) (count : Nat) (lineBreak : Bool) :
    (found.append behind).after count lineBreak = (found.after count lineBreak).append behind := by
  simp [append, after, Nat.add_assoc, Bool.or_assoc]

theorem Trivia.append_afterComment (found behind : Trivia) (block : Bool) (start : Nat)
    (text : List Char) : (found.append behind).afterComment block start text =
      (found.afterComment block start text).append behind := by
  simp [append, after, afterComment, Nat.add_assoc, Bool.or_assoc]

/-- A gap is passed over, and then what comes behind it. -/
theorem Gap.trivia_append {b : Bool} {gap : List Char} (isGap : Gap b gap) (offset : Nat)
    (text : List Char) : trivia offset (gap ++ text) =
      (trivia offset gap).append (trivia (offset + Text.byteLength gap) text) := by
  induction isGap generalizing offset with
  | nil => simp [trivia, Trivia.append, Trivia.none]
  | lineBreak breaks _ ih =>
      rw [List.cons_append, trivia_of_isLineBreak breaks, ih, Trivia.append_after,
        ← trivia_of_isLineBreak breaks, Nat.add_assoc, Text.byteLength_cons]
  | blank stays blank _ ih =>
      rw [List.cons_append, trivia_of_isBlank stays blank, ih, Trivia.append_after,
        ← trivia_of_isBlank stays blank, Nat.add_assoc, Text.byteLength_cons]
  | @line body cs c _ oneLine ends _ ih =>
      have comment (rest : List Char) : IsComment false ('/' :: '/' :: body) (c :: rest) :=
        .line oneLine (by simpa using ends)
      have whole := trivia_of_isComment (comment (cs ++ text)) offset
      rw [← List.cons_append, ih, Trivia.append_afterComment, ← trivia_of_isComment (comment cs),
        Nat.add_assoc, ← Text.byteLength_append, ← List.append_assoc] at whole
      exact whole
  | @block body cs _ closed _ ih =>
      have comment (rest : List Char) : IsComment true ('/' :: '*' :: body) rest := .block closed
      have whole := trivia_of_isComment (comment (cs ++ text)) offset
      rw [ih, Trivia.append_afterComment, ← trivia_of_isComment (comment cs),
        Nat.add_assoc, ← Text.byteLength_append, ← List.append_assoc] at whole
      exact whole

/-- **A gap is passed over to its end.** -/
theorem Gap.trivia_eq {b : Bool} {gap : List Char} (isGap : Gap b gap) (offset : Nat) :
    trivia offset gap = ⟨gap.length, (trivia offset gap).comments, b, none⟩ := by
  induction isGap generalizing offset with
  | nil => rw [trivia]; rfl
  | lineBreak breaks _ ih =>
      rw [trivia_of_isLineBreak breaks, ih]
      simp [Trivia.after, Nat.add_comm]
  | blank stays blank _ ih =>
      rw [trivia_of_isBlank stays blank, ih]
      simp [Trivia.after, Nat.add_comm]
  | @line body cs c _ oneLine ends _ ih =>
      have whole := trivia_of_isComment
        (.line oneLine (by simpa using ends) : IsComment false _ (c :: cs)) offset
      rw [List.cons_append, List.cons_append, ih] at whole
      rw [whole]
      simp [Trivia.afterComment, Trivia.after, Nat.add_right_comm]
  | @block body cs _ closed _ ih =>
      have whole := trivia_of_isComment (.block closed : IsComment true _ cs) offset
      rw [List.cons_append, List.cons_append, ih] at whole
      rw [whole]
      simp [Trivia.afterComment, Trivia.after, Nat.add_right_comm]

/-- **A gap in front of solid text is passed over exactly.** -/
theorem Gap.trivia_solid {b : Bool} {gap : List Char} (isGap : Gap b gap) (offset : Nat)
    {text : List Char} (firm : solid text = true) :
    trivia offset (gap ++ text) = trivia offset gap := by
  rw [isGap.trivia_append, trivia_of_solid _ firm, isGap.trivia_eq]
  simp [Trivia.append, Trivia.none]

/-- What may stand behind the last token is passed over to the end. -/
theorem FinalGap.trivia_eq {text : List Char} (final : FinalGap text) (offset : Nat) :
    (trivia offset text).length = text.length ∧ (trivia offset text).unclosed = none := by
  obtain ⟨b, gap, tail, isGap, rfl, rfl | ⟨comment, rfl, oneLine⟩⟩ := final
  · rw [List.append_nil, isGap.trivia_eq]
    exact ⟨rfl, rfl⟩
  · have found := trivia_of_isComment (.line oneLine nofun : IsComment false _ [])
      (offset + Text.byteLength gap)
    rw [List.append_nil, trivia] at found
    rw [isGap.trivia_append, isGap.trivia_eq, found, List.length_append]
    exact ⟨rfl, rfl⟩

/-! ## What is passed over -/

/-- The text from which passing over a gap leads to `rest`. In front of more text the gap
is complete; at the end of the source it may be a final one. -/
def Leads (b : Bool) (cs rest : List Char) : Prop :=
  solid rest = true ∧ ∃ gap, cs = gap ++ rest ∧ (Gap b gap ∨ rest = [] ∧ FinalGap gap)

/-- Text in front of a gap can be taken into it, also when the gap is a final one. -/
theorem Leads.extend {b : Bool} {cs rest : List Char} (leads : Leads b cs rest)
    (f : Bool → Bool) (front : List Char)
    (joins : ∀ {b gap tail}, Gap b gap → cs = gap ++ tail →
      (∀ c, tail.head? = some c → isLineBreak c = false) → Gap (f b) (front ++ gap)) :
    Leads (f b) (front ++ cs) rest := by
  obtain ⟨firm, gap, rfl, isGap | ⟨rfl, b', gap', tail, isGap, rfl, final⟩⟩ := leads
  · refine ⟨firm, front ++ gap, by simp, .inl (joins isGap rfl ?_)⟩
    intro c head
    obtain ⟨text, rfl⟩ := List.head?_eq_some_iff.1 head
    simp only [solid, Bool.and_eq_true, Bool.not_eq_true'] at firm
    exact firm.1.1
  · refine ⟨rfl, front ++ (gap' ++ tail), by simp,
      .inr ⟨rfl, f b', front ++ gap', tail, joins isGap (List.append_nil _) ?_, by simp, final⟩⟩
    intro c head
    obtain rfl | ⟨comment, rfl, _⟩ := final
    · cases head
    · cases head
      decide

/-- **What is passed over is a gap**, with solid text behind it. -/
theorem leads_of_trivia (offset : Nat) (cs : List Char)
    (closed : (trivia offset cs).unclosed = none) :
    Leads (trivia offset cs).lineBreak cs (cs.drop (trivia offset cs).length) := by
  induction offset, cs using trivia_induction with
  | firm offset cs firm =>
      rw [trivia_of_solid offset firm]
      exact ⟨firm, [], rfl, .inl .nil⟩
  | lineBreak offset c rest breaks ih =>
      rw [trivia_of_isLineBreak breaks] at closed ⊢
      have extended := (ih closed).extend (fun _ => true) [c]
        fun isGap _ _ => .lineBreak breaks isGap
      simpa [Trivia.after, Nat.add_comm 1] using extended
  | blank offset c rest stays blank ih =>
      rw [trivia_of_isBlank stays blank] at closed ⊢
      have extended := (ih closed).extend id [c] fun isGap _ _ => .blank stays blank isGap
      simpa [Trivia.after, Nat.add_comm 1] using extended
  | comment offset block text behind comment ih =>
      rw [trivia_of_isComment comment] at closed ⊢
      simp only [Trivia.afterComment, Trivia.after, List.drop_length_add_append]
      cases comment with
      | block closes =>
          have extended := (ih closed).extend (_ || ·) ('/' :: '*' :: _)
            fun isGap _ _ => .block closes isGap
          simpa using extended
      | @line body behind oneLine ends =>
          cases behind with
          | nil =>
              -- The comment runs to the end of the source.
              exact ⟨by simp [solid], '/' :: '/' :: body, by simp, .inr ⟨by simp, false, [],
                '/' :: '/' :: body, .nil, rfl, .inr ⟨body, rfl, oneLine⟩⟩⟩
          | cons d rest =>
              -- The line break that ends the comment is the first character of the gap
              -- behind it.
              refine (ih closed).extend id _ fun {b gap tail} isGap cut stays => ?_
              cases gap with
              | nil =>
                  have breaks : isLineBreak d = true := by
                    rcases ends d rfl with rfl | rfl <;> decide
                  exact absurd (stays d (by rw [← List.nil_append tail, ← cut]; rfl))
                    (by simp [breaks])
              | cons e gap =>
                  obtain ⟨rfl, _⟩ := List.cons.inj cut
                  exact .line oneLine (ends d rfl) isGap
  | unclosed offset body unclosed =>
      rw [trivia_of_unclosed unclosed] at closed
      cases closed

end TidyScript.Token
