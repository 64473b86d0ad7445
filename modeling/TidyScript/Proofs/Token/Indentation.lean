import TidyScript.Proofs.Token.Respacing
import TidyScript.Text.Line
import TidyScript.Text.Reindent

/-!
# Tokens in text that is indented anew

A text gets another indentation line by line: behind a line feed, the old indentation is taken away
and the new one is put there. Between two tokens this exchanges white space for white space. Inside
a token it changes the token, so a row of tokens is kept if no line of a token begins with the old
indentation. Only strings and templates can have several lines.
-/

namespace TidyScript

open Lexical (isSpace)

namespace Text

variable {old new : List Char}

/-! ## Line by line -/

/-- The text with its indentation exchanged on every line. -/
def indented (old new cs : List Char) : List Char :=
  joinLines ((splitLines cs).map (exchangeLead old new))

/-- The text with its indentation exchanged on every line behind the first. -/
def reindented (old new cs : List Char) : List Char :=
  match splitLines cs with
  | [] => []
  | line :: lines => joinLines (line :: lines.map (exchangeLead old new))

theorem exists_splitLines (cs : List Char) : ∃ line lines, splitLines cs = line :: lines := by
  unfold splitLines
  repeat' split
  all_goals exact ⟨_, _, rfl⟩

theorem splitLines_append {front cs line : List Char} {lines : List (List Char)}
    (oneLine : '\n' ∉ front) (split : splitLines cs = line :: lines) :
    splitLines (front ++ cs) = (front ++ line) :: lines := by
  induction front with
  | nil => exact split
  | cons c front ih =>
    rw [List.mem_cons, not_or] at oneLine
    rw [List.cons_append, splitLines, if_neg (Ne.symm oneLine.1), ih oneLine.2]
    rfl

theorem prefix_of_splitLines {cs line : List Char} {lines : List (List Char)}
    (split : splitLines cs = line :: lines) : line <+: cs := by
  induction cs generalizing line lines with
  | nil =>
    cases split
    exact List.prefix_rfl
  | cons c cs ih =>
    obtain ⟨next, others, behind⟩ := exists_splitLines cs
    rw [splitLines, behind] at split
    split at split
    · cases split
      exact List.nil_prefix
    · cases split
      exact List.cons_prefix_cons.2 ⟨rfl, ih behind⟩

theorem joinLines_append (front line : List Char) (lines : List (List Char)) :
    joinLines ((front ++ line) :: lines) = front ++ joinLines (line :: lines) := by
  cases lines <;> simp [joinLines]

theorem reindented_append {front : List Char} (oneLine : '\n' ∉ front) (cs : List Char) :
    reindented old new (front ++ cs) = front ++ reindented old new cs := by
  obtain ⟨line, lines, split⟩ := exists_splitLines cs
  simp only [reindented, split, splitLines_append oneLine split, joinLines_append]

theorem reindented_feed (cs : List Char) :
    reindented old new ('\n' :: cs) = '\n' :: indented old new cs := by
  obtain ⟨line, lines, split⟩ := exists_splitLines cs
  simp [reindented, indented, splitLines, split, joinLines]

/-- At the start of a line, the indentation is exchanged if it is there. -/
theorem indented_eq (oneLine : '\n' ∉ old) (cs : List Char) :
    indented old new cs = if old.isPrefixOf cs then new ++ reindented old new (cs.drop old.length)
      else reindented old new cs := by
  split
  · next starts =>
    obtain ⟨behind, rfl⟩ := List.isPrefixOf_iff_prefix.1 starts
    obtain ⟨line, lines, split⟩ := exists_splitLines behind
    have lead : exchangeLead old new (old ++ line) = new ++ line := by simp [exchangeLead]
    rw [indented, splitLines_append oneLine split, List.map_cons, lead, joinLines_append,
      List.drop_left, reindented, split]
  · next other =>
    obtain ⟨line, lines, split⟩ := exists_splitLines cs
    have lead : exchangeLead old new line = line := by
      rw [exchangeLead, if_neg]
      rw [List.isPrefixOf_iff_prefix] at other ⊢
      exact fun starts => other (starts.trans (prefix_of_splitLines split))
    rw [indented, reindented, split, List.map_cons, lead]

/-- The text with its indentation exchanged. Where the old one is empty, the new one may stand in
front of the first line feed too. -/
inductive Reindents (old new : List Char) : List Char → List Char → Prop where
  | plain (cs : List Char) : Reindents old new cs (reindented old new cs)
  | ahead {front : List Char} (none : old = []) (oneLine : '\n' ∉ front) (cs : List Char) :
      Reindents old new (front ++ '\n' :: cs) (front ++ (new ++ reindented old new ('\n' :: cs)))

theorem reindents_reindent {old new : String} (moved : old ≠ new) (cs : List Char) :
    ∃ ds, reindent (String.ofList cs) old new = String.ofList ds ∧
      Reindents old.toList new.toList cs ds := by
  have parts := List.takeWhile_append_dropWhile (p := fun c => decide (c ≠ '\n')) (l := cs)
  have oneLine : '\n' ∉ cs.takeWhile (· ≠ '\n') := fun mem => by
    simpa using List.mem_takeWhile_imp mem
  rw [reindent, if_neg moved, String.toList_ofList]
  dsimp only
  generalize cs.takeWhile (· ≠ '\n') = first at parts oneLine
  cases rest : cs.dropWhile (· ≠ '\n') with
  | nil =>
    rw [rest, List.append_nil] at parts
    have still : reindented old.toList new.toList (first ++ []) = first ++ [] :=
      reindented_append oneLine []
    rw [List.append_nil, parts] at still
    have plain : Reindents old.toList new.toList cs (reindented old.toList new.toList cs) := .plain cs
    rw [still] at plain
    exact ⟨cs, rfl, plain⟩
  | cons c behind =>
    obtain rfl : c = '\n' := by
      have stops := List.head?_dropWhile_not (fun c => decide (c ≠ '\n')) cs
      rw [rest] at stops
      simpa using stops
    obtain ⟨line, lines, split⟩ := exists_splitLines behind
    rw [rest] at parts
    rw [← parts]
    refine ⟨_, rfl, ?_⟩
    have joined : joinLines ((splitLines ('\n' :: behind)).map (exchangeLead old.toList new.toList)) =
        exchangeLead old.toList new.toList [] ++ reindented old.toList new.toList ('\n' :: behind) := by
      simp [reindented_feed, indented, splitLines, split, joinLines]
    rw [joined]
    by_cases none : old.toList = []
    · have lead : exchangeLead old.toList new.toList [] = new.toList := by simp [exchangeLead, none]
      rw [lead]
      exact .ahead none oneLine behind
    · have lead : exchangeLead old.toList new.toList [] = [] := by
        simp [exchangeLead, List.isPrefixOf_iff_prefix, none]
      rw [lead, List.nil_append, ← reindented_append oneLine]
      exact .plain _

/-! ## Word by word -/

/-- No line feed in the text has the indentation behind it. -/
def holdsStill (indent : List Char) : List Char → Bool
  | [] => true
  | c :: cs => (c ≠ '\n' || !indent.isPrefixOf cs) && holdsStill indent cs

section Words

variable {word gap rest out : List Char}

theorem isSpace_of_isIndent {c : Char} (indent : isIndent c = true) : isSpace c = true := by
  simp only [isIndent, Bool.or_eq_true, decide_eq_true_eq] at indent
  rcases indent with rfl | rfl <;> decide

/-- White space at the front of a text stands in front of the first solid character. -/
theorem prefix_of_space (space : ∀ c ∈ old, isSpace c = true) (starts : old <+: gap ++ rest)
    (firm : ∀ c, rest.head? = some c → isSpace c = false) : old <+: gap := by
  rcases List.prefix_or_prefix_of_prefix starts (List.prefix_append gap rest) with inside | ⟨more, rfl⟩
  · exact inside
  · cases more with
    | nil => simp
    | cons c more =>
      rw [List.prefix_append_right_inj] at starts
      obtain ⟨tail, rfl⟩ := starts
      exact absurd (space c (by simp)) (by simp [firm c rfl])

variable (indent : ∀ c ∈ old, isIndent c = true)
include indent

theorem feed_not_mem : '\n' ∉ old := fun mem => absurd (indent _ mem) (by decide)

/-- A text that holds still is kept, if it does not end with white space. -/
theorem reindented_word (still : holdsStill old word = true)
    (firm : ∀ c, word.getLast? = some c → isSpace c = false) (rest : List Char) :
    reindented old new (word ++ rest) = word ++ reindented old new rest := by
  induction word with
  | nil => rfl
  | cons c word ih =>
    simp only [holdsStill, Bool.and_eq_true, Bool.or_eq_true, decide_eq_true_eq,
      Bool.not_eq_true'] at still
    have kept : reindented old new (word ++ rest) = word ++ reindented old new rest := by
      refine ih still.2 fun d last => firm d ?_
      rw [List.getLast?_cons, last]
      rfl
    by_cases feed : c = '\n'
    · subst feed
      rw [List.cons_append, reindented_feed, indented_eq (feed_not_mem indent), if_neg, kept,
        List.cons_append]
      rw [List.isPrefixOf_iff_prefix]
      intro starts
      have apart : ¬ old <+: word := by
        rw [← List.isPrefixOf_iff_prefix]
        exact Bool.eq_false_iff.1 (still.1.resolve_left (by simp))
      -- Indentation that starts inside the text ends inside it, since the text ends solidly.
      rcases List.prefix_or_prefix_of_prefix starts (List.prefix_append word rest) with inside | ⟨more, rfl⟩
      · exact apart inside
      · cases last : word.getLast? with
        | none =>
          rw [List.getLast?_eq_none_iff] at last
          exact absurd (firm '\n' (by rw [last]; rfl)) (by decide)
        | some d =>
          have space := isSpace_of_isIndent (indent d (List.mem_append_left _ (List.mem_of_getLast? last)))
          exact absurd (firm d (by rw [List.getLast?_cons, last]; rfl)) (by simp [space])
    · have oneLine : '\n' ∉ [c] := by simpa using Ne.symm feed
      rw [List.cons_append, ← List.singleton_append, reindented_append oneLine, kept]
      rfl

/-- White space in front of a word is exchanged for white space. -/
theorem exists_reindented_gap (indentNew : ∀ c ∈ new, isIndent c = true)
    (space : ∀ c ∈ gap, isSpace c = true) (firm : ∀ c, rest.head? = some c → isSpace c = false) :
    ∃ gap', reindented old new (gap ++ rest) = gap' ++ reindented old new rest ∧
      (gap' = [] ↔ gap = []) ∧ ∀ c ∈ gap', isSpace c = true := by
  induction n : gap.length using Nat.strong_induction_on generalizing gap with
  | _ n ih =>
  subst n
  cases gap with
  | nil => exact ⟨[], rfl, Iff.rfl, by simp⟩
  | cons c gap =>
    rw [List.forall_mem_cons] at space
    by_cases feed : c = '\n'
    · subst feed
      rw [List.cons_append, reindented_feed, indented_eq (feed_not_mem indent)]
      split
      · next starts =>
        rw [List.isPrefixOf_iff_prefix] at starts
        obtain ⟨behind, rfl⟩ := prefix_of_space (fun c mem => isSpace_of_isIndent (indent c mem)) starts firm
        obtain ⟨gap', same, _, spaces⟩ := ih behind.length
          (by rw [List.length_cons, List.length_append]; omega)
          (fun d mem => space.2 d (List.mem_append_right _ mem)) rfl
        rw [List.append_assoc, List.drop_left, same]
        exact ⟨'\n' :: (new ++ gap'), by simp, by simp, List.forall_mem_cons.2 ⟨space.1,
          List.forall_mem_append.2 ⟨fun d mem => isSpace_of_isIndent (indentNew d mem), spaces⟩⟩⟩
      · obtain ⟨gap', same, _, spaces⟩ := ih gap.length (by simp) space.2 rfl
        exact ⟨'\n' :: gap', by rw [same]; rfl, by simp, List.forall_mem_cons.2 ⟨space.1, spaces⟩⟩
    · have oneLine : '\n' ∉ [c] := by simpa using Ne.symm feed
      obtain ⟨gap', same, _, spaces⟩ := ih gap.length (by simp) space.2 rfl
      refine ⟨c :: gap', ?_, by simp, List.forall_mem_cons.2 ⟨space.1, spaces⟩⟩
      rw [List.cons_append, ← List.singleton_append, reindented_append oneLine, same]
      rfl

omit indent in
theorem feed_not_mem_of_still (still : holdsStill [] word = true) : '\n' ∉ word := by
  induction word with
  | nil => simp
  | cons c word ih =>
    simp only [holdsStill, List.isPrefixOf_nil_left, Bool.not_true, Bool.or_false, Bool.and_eq_true,
      decide_eq_true_eq] at still
    exact fun mem => (List.mem_cons.1 mem).elim (Ne.symm still.1) (ih still.2)

theorem Reindents.of_word (reindents : Reindents old new (word ++ rest) out)
    (still : holdsStill old word = true) (firm : ∀ c, word.getLast? = some c → isSpace c = false) :
    ∃ out', out = word ++ out' ∧ Reindents old new rest out' := by
  generalize whole : word ++ rest = cs at reindents
  cases reindents with
  | plain => exact ⟨_, whole ▸ reindented_word indent still firm rest, .plain rest⟩
  | @ahead front none oneLine cs =>
    rw [none] at still
    have apart := feed_not_mem_of_still still
    obtain ⟨more, rfl, rfl⟩ : ∃ more, front = word ++ more ∧ rest = more ++ '\n' :: cs := by
      rcases List.append_eq_append_iff.1 whole with inside | ⟨more, rfl, behind⟩
      · exact inside
      · cases more with
        | nil => exact ⟨[], by simp, by simpa using behind.symm⟩
        | cons c more =>
          obtain ⟨rfl, _⟩ := List.cons.inj behind
          simp at apart
    rw [List.mem_append, not_or] at oneLine
    exact ⟨more ++ (new ++ reindented old new ('\n' :: cs)), by simp, .ahead none oneLine.2 cs⟩

theorem Reindents.of_gap (reindents : Reindents old new (gap ++ rest) out)
    (indentNew : ∀ c ∈ new, isIndent c = true) (space : ∀ c ∈ gap, isSpace c = true)
    (firm : ∀ c, rest.head? = some c → isSpace c = false) :
    ∃ gap' out', out = gap' ++ out' ∧ Reindents old new rest out' ∧ (gap' = [] ↔ gap = []) ∧
      ∀ c ∈ gap', isSpace c = true := by
  generalize whole : gap ++ rest = cs at reindents
  cases reindents with
  | plain =>
    obtain ⟨gap', same, empty, spaces⟩ := exists_reindented_gap indent indentNew space firm
    exact ⟨gap', _, whole ▸ same, .plain rest, empty, spaces⟩
  | @ahead front none oneLine cs =>
    rcases List.append_eq_append_iff.1 whole with ⟨more, rfl, rfl⟩ | ⟨more, rfl, behind⟩
    · rw [List.mem_append, not_or] at oneLine
      exact ⟨gap, more ++ (new ++ reindented old new ('\n' :: cs)), by simp,
        .ahead none oneLine.2 cs, Iff.rfl, space⟩
    · cases more with
      | nil => exact absurd (firm '\n' (by rw [← List.nil_append rest, ← behind]; rfl)) (by decide)
      | cons c more =>
        obtain ⟨rfl, rfl⟩ := List.cons.inj behind
        rw [List.forall_mem_append] at space
        obtain ⟨gap', same, empty, spaces⟩ := exists_reindented_gap indent indentNew space.2 firm
        refine ⟨front ++ (new ++ gap'), _, ?_, .plain rest, ?_, ?_⟩
        · show front ++ (new ++ reindented old new ('\n' :: more ++ rest)) = _
          rw [same]
          simp
        · simp [empty]
        · exact List.forall_mem_append.2 ⟨space.1, List.forall_mem_append.2
            ⟨fun c mem => isSpace_of_isIndent (indentNew c mem), spaces⟩⟩

end Words

end Text

/-! ## Rows of pieces -/

namespace Piece

open Text

variable {regexAllowed : Bool} {ps behind : List Piece} {p : Piece} {final : List Char}

/-- A piece starts and ends with solid characters. -/
theorem Stands.firm_ends {rest : List Char} (stands : p.Stands regexAllowed rest) :
    (∀ c, p.text.head? = some c → isSpace c = false) ∧
      ∀ c, p.text.getLast? = some c → isSpace c = false := by
  refine ⟨fun c head => ?_, fun c => stands.lexes.isSpace_last⟩
  obtain ⟨others, parts⟩ := List.head?_eq_some_iff.1 head
  have firm := stands.firm
  rw [parts, List.cons_append, Token.solid] at firm
  simp only [Bool.and_eq_true, Bool.not_eq_true'] at firm
  exact firm.1.2

theorem exists_respaces_of_reindents {old new out : List Char}
    (indent : ∀ c ∈ old, isIndent c = true) (indentNew : ∀ c ∈ new, isIndent c = true)
    (stands : ∀ p ∈ ps, ∃ regexAllowed rest, p.Stands regexAllowed rest)
    (space : ∀ p ∈ ps, ∀ c ∈ p.gap, isSpace c = true)
    (still : ∀ p ∈ ps, holdsStill old p.text = true)
    (reindents : Reindents old new (ps.flatMap chars) out) :
    ∃ qs, List.Forall₂ Respaces ps qs ∧ out = qs.flatMap chars := by
  induction ps generalizing out with
  | nil =>
    refine ⟨[], .nil, ?_⟩
    generalize nothing : List.flatMap chars [] = cs at reindents
    cases reindents with
    | plain => rw [← nothing]; rfl
    | ahead => simp at nothing
  | cons p ps ih =>
    rw [List.forall_mem_cons] at stands space still
    obtain ⟨⟨_, _, here⟩, stands⟩ := stands
    obtain ⟨head, last⟩ := here.firm_ends
    rw [List.flatMap_cons, chars, List.append_assoc] at reindents
    obtain ⟨gap, out', rfl, spaced, empty, spaces⟩ := reindents.of_gap indent indentNew space.1
      fun c first => head c (by rwa [List.head?_append_of_ne_nil _ here.text_ne_nil] at first)
    obtain ⟨out, rfl, more⟩ := spaced.of_word indent still.1 last
    obtain ⟨qs, respaces, rfl⟩ := ih stands space.2 still.2 more
    refine ⟨⟨gap, p.kind, p.text⟩ :: qs, .cons ⟨rfl, rfl, ?_⟩ respaces, by simp [chars]⟩
    by_cases none : gap = []
    · exact .inl (none.trans (empty.1 none).symm)
    · exact .inr ⟨none, spaces⟩

/-- **Text that is indented anew has its tokens in the same row**, if no line of a token begins with
the old indentation. -/
theorem exists_respaces_reindent {old new : String}
    (indent : ∀ c ∈ old.toList, isIndent c = true) (indentNew : ∀ c ∈ new.toList, isIndent c = true)
    (stands : ∀ q ∈ p :: ps, ∃ regexAllowed rest, q.Stands regexAllowed rest)
    (space : ∀ q ∈ ps, ∀ c ∈ q.gap, isSpace c = true) {front : List Char}
    (separated : front = [] ∨ front = [';'])
    (still : old ≠ new → ∀ q ∈ p :: ps, holdsStill old.toList q.text = true) :
    ∃ qs, List.Forall₂ Respaces ps qs ∧
      reindent (String.ofList (front ++ (p.text ++ ps.flatMap chars))) old new =
        String.ofList (front ++ (p.text ++ qs.flatMap chars)) := by
  rw [List.forall_mem_cons] at stands
  obtain ⟨⟨_, _, here⟩, stands⟩ := stands
  by_cases same : old = new
  · refine ⟨ps, List.forall₂_same.2 fun q _ => .refl q, ?_⟩
    rw [reindent, if_pos same]
  · have still := List.forall_mem_cons.1 (still same)
    obtain ⟨out, moved, reindents⟩ := reindents_reindent same (front ++ (p.text ++ ps.flatMap chars))
    have firm : holdsStill old.toList front = true ∧
        ∀ c, front.getLast? = some c → isSpace c = false := by
      rcases separated with rfl | rfl
      · exact ⟨rfl, nofun⟩
      · exact ⟨rfl, fun c last => by cases last; decide⟩
    obtain ⟨_, rfl, behind⟩ := reindents.of_word indent firm.1 firm.2
    obtain ⟨_, rfl, others⟩ := behind.of_word indent still.1 here.firm_ends.2
    obtain ⟨qs, respaces, rfl⟩ :=
      exists_respaces_of_reindents indent indentNew stands space still.2 others
    exact ⟨qs, respaces, moved⟩

end Piece

end TidyScript
