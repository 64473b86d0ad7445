import TidyScript.Proofs.Grammar.Balance
import TidyScript.Proofs.Grammar.Likeness
import TidyScript.Proofs.Token.Setting

/-!
# Parses side by side

The same production reads two rows of tokens that read the same and are set alike. What comes behind
the rows may differ, and so may the mode. As long as neither parse goes past the end of its row, the
two go through the rows abreast, and what they read is the same without marks.

Past the end of a row a parse may look, but it takes nothing there. A decision on what stands there
comes out differently only if one of its sides takes a token, and this side goes too far. `Meets`
says of two parses that they stay abreast, and it composes along the steps of a production.

Where the modes differ, the word `in` is an operator to one of the parses only. The other one stops
in front of it. What can follow there fails, since the word does not start a line. Productions that
may end like this meet loosely: they stay abreast or one of them is halted by the word.
-/

namespace TidyScript.Grammar

-- productions are long rows of steps
set_option synthInstance.maxSize 1000000000

variable {α β : Type} {s s' t t' : State} {x y : List Token} {loose : Bool}

/-! ## States side by side -/

/-- The tokens mean the same and have the same text, unless they are strings in quotes. If they are
the word `in`, they do not start a line. -/
structure Twin (a b : Token) : Prop where
  same : Token.same a b = true
  text : a.text = b.text ∨ a.text.toList.head?.any Token.isQuote = true
  inner : a.isKeyword "in" = true → a.newlineBefore = false ∧ b.newlineBefore = false

theorem Twin.of_eof {token : Token} (eof : token.kind = .eof) : Twin token token :=
  ⟨Token.same_iff.2 ⟨rfl, rfl⟩, .inl rfl, fun is => by simp [Token.isKeyword, eof] at is⟩

theorem Twin.of_same {a b : Token} (same : Token.same a b = true)
    (inner : a.isKeyword "in" = true → a.newlineBefore = false ∧ b.newlineBefore = false)
    (quoted : ∀ value, a.kind = .string value → a.text.toList.head?.any Token.isQuote = true) :
    Twin a b := by
  refine ⟨same, ?_, inner⟩
  by_cases isString : ∃ value, a.kind = .string value
  · obtain ⟨value, is⟩ := isString
    exact .inr (quoted value is)
  · exact .inl (Token.text_eq_of_same same (not_exists.1 isString))

theorem Twin.like {a b : Token} (twin : Twin a b) : Like a b := by
  obtain ⟨kind, text⟩ := Token.same_iff.1 twin.same
  exact ⟨Prod.ext kind text⟩

/-- The two states stand in rows that go on abreast behind the given tokens, the first up to `x` and
the second up to `y`. -/
def Behind (before x y : List Token) (s t : State) : Prop :=
  ∃ as bs, Token.Abreast before as bs ∧ s.rest = as ++ x ∧ t.rest = bs ++ y

/-- Both rows have ended, or both have a token left. The two tokens are twins, and stand on one line
with the token before in both rows or in none, if the grammar heeds it. -/
theorem Behind.cases {before : List Token} (behind : Behind before x y s t) :
    (s.rest = x ∧ t.rest = y) ∨
      (Twin s.current t.current ∧ s.rest ≠ [] ∧ t.rest ≠ [] ∧
        Behind (s.current :: before) x y s.next t.next ∧
        (Token.heedsBreak before s.current = true →
          s.current.newlineBefore = t.current.newlineBefore)) := by
  obtain ⟨as, bs, abreast, rest, rest'⟩ := behind
  obtain ⟨_, _⟩ := s
  obtain ⟨_, _⟩ := t
  cases abreast with
  | nil => exact .inl ⟨rest, rest'⟩
  | cons same breaks inner quoted more =>
    cases rest
    cases rest'
    exact .inr ⟨.of_same same inner quoted, by simp, by simp, ⟨_, _, more, rfl, rfl⟩, breaks⟩

/-- The two states stand in rows that go on abreast, the first up to `x`, the second up to `y`. -/
structure Beside (x y : List Token) (s t : State) : Prop where
  rows : ∃ before, Behind before x y s t
  ends : s.Ends
  stop : s.stop = t.stop

namespace Beside

variable (beside : Beside x y s t)
include beside

theorem ends' : t.Ends :=
  (congrArg Token.kind beside.stop.symm).trans beside.ends

/-- States with the same tokens to be read. -/
theorem of_rest (rest : s'.rest = s.rest) (stop : s'.stop = s.stop) (rest' : t'.rest = t.rest)
    (stop' : t'.stop = t.stop) : Beside x y s' t' :=
  ⟨by simp only [Behind, rest, rest']; exact beside.rows,
    by rw [State.Ends, stop]; exact beside.ends, stop.trans (beside.stop.trans stop'.symm)⟩

theorem of_next {before : List Token} (behind : Behind before x y s.next t.next) :
    Beside x y s.next t.next :=
  ⟨⟨before, behind⟩, beside.ends.proceeds (State.Steps.next s).proceeds,
    (State.Steps.next s).stop.trans (beside.stop.trans (State.Steps.next t).stop.symm)⟩

/-- Both rows have ended, or both have a token left, and the two tokens are twins. -/
theorem cases :
    (s.rest = x ∧ t.rest = y) ∨
      (Twin s.current t.current ∧ s.rest ≠ [] ∧ t.rest ≠ [] ∧ Beside x y s.next t.next) := by
  obtain ⟨_, behind⟩ := beside.rows
  exact behind.cases.imp id fun ⟨twin, live, live', next, _⟩ =>
    ⟨twin, live, live', beside.of_next next⟩

/-- At most one token of each row is left, or the next two tokens are twins. Then they stand on one
line in both rows or in none, if the grammar heeds it. -/
theorem two :
    (s.rest.length ≤ x.length + 1 ∧ t.rest.length ≤ y.length + 1) ∨
      (Twin s.current t.current ∧ Twin (s.peek 1) (t.peek 1) ∧
        (s.current.cutsOff = true → (s.peek 1).newlineBefore = (t.peek 1).newlineBefore)) := by
  obtain ⟨_, behind⟩ := beside.rows
  rcases behind.cases with ⟨rfl, rfl⟩ | ⟨first, live, live', behind, _⟩
  · exact .inl ⟨Nat.le_succ _, Nat.le_succ _⟩
  rcases behind.cases with ⟨ended, ended'⟩ | ⟨second, _, _, _, breaks⟩
  · rw [← State.length_next live, ← State.length_next live', ended, ended']
    exact .inl ⟨Nat.le_refl _, Nat.le_refl _⟩
  · rw [State.current_next, State.current_next] at second breaks
    refine .inr ⟨first, second, fun cuts => breaks ?_⟩
    simp [Token.heedsBreak, cuts]

/-- The rows are of one length. -/
theorem length_add : s.rest.length + y.length = t.rest.length + x.length := by
  obtain ⟨_, as, bs, abreast, rest, rest'⟩ := beside.rows
  rw [rest, rest', List.length_append, List.length_append, abreast.length_eq]
  omega

/-- Tokens at one place in the rows are twins. -/
theorem peek {i : Nat} (inside : i + x.length < s.rest.length) : Twin (s.peek i) (t.peek i) := by
  obtain ⟨_, as, bs, abreast, rest, rest'⟩ := beside.rows
  rw [rest, List.length_append, Nat.add_lt_add_iff_right] at inside
  rw [State.peek, State.peek, rest, rest']
  generalize s.stop = stop, t.stop = stop'
  clear rest rest'
  induction abreast generalizing i with
  | nil => cases inside
  | cons same _ inner quoted _ ih =>
    cases i with
    | zero => exact .of_same same inner quoted
    | succ i => exact ih (Nat.lt_of_succ_lt_succ inside)

/-- What is left of the rows behind a number of tokens goes on abreast. -/
theorem drop {n : Nat} (inside : n + x.length ≤ s.rest.length) :
    ∃ before as bs, Token.Abreast before as bs ∧ s.rest.drop n = as ++ x ∧
      t.rest.drop n = bs ++ y := by
  obtain ⟨before, as, bs, abreast, rest, rest'⟩ := beside.rows
  rw [rest, List.length_append, Nat.add_le_add_iff_right] at inside
  have inside' : n ≤ bs.length := abreast.length_eq ▸ inside
  have length : (as.take n).length = (bs.take n).length := by simp [inside, inside']
  have split : Token.Abreast before (as.take n ++ as.drop n) (bs.take n ++ bs.drop n) := by
    rw [List.take_append_drop, List.take_append_drop]
    exact abreast
  exact ⟨_, _, _, .drop length split, by rw [rest, List.drop_append_of_le_length inside],
    by rw [rest', List.drop_append_of_le_length inside']⟩

/-- Behind a token that has been taken. -/
theorem further {r r' : State} (here : Beside x y r r') (suffix : r.rest <:+ s.rest)
    (suffix' : r'.rest <:+ t.rest) (taken : r.rest.length + 1 ≤ s.rest.length) :
    ∃ previous others, Behind (previous :: others) x y r r' := by
  obtain ⟨before, as, bs, abreast, rest, rest'⟩ := beside.rows
  obtain ⟨_, as', bs', abreast', left, left'⟩ := here.rows
  obtain ⟨read, split⟩ := suffix
  obtain ⟨read', split'⟩ := suffix'
  obtain rfl : read ++ as' = as := by
    rw [rest, left, ← List.append_assoc] at split
    exact List.append_cancel_right split
  obtain rfl : read' ++ bs' = bs := by
    rw [rest', left', ← List.append_assoc] at split'
    exact List.append_cancel_right split'
  have length : read.length = read'.length := by
    have whole := abreast.length_eq
    rw [List.length_append, List.length_append, abreast'.length_eq] at whole
    exact Nat.add_right_cancel whole
  obtain ⟨previous, others, behind⟩ :
      ∃ previous others, read.reverse ++ before = previous :: others := by
    refine List.exists_cons_of_ne_nil fun empty => ?_
    have none : read = [] := by simpa using (List.append_eq_nil_iff.1 empty).1
    rw [← split, none] at taken
    exact Nat.not_succ_le_self _ taken
  exact ⟨previous, others, as', bs', behind ▸ abreast.drop length, left, left'⟩

end Beside

/-- The state is not past the end of the row, and no name in its table is quoted. -/
structure State.Fine (x : List Token) (s : State) : Prop where
  length_le : x.length ≤ s.rest.length
  unquoted : ¬ s.HasQuotedName

theorem State.Fine.of_proceeds (fine : s'.Fine x) (proceeds : s.Proceeds s') : s.Fine x :=
  ⟨fine.length_le.trans proceeds.length_le, fun has => fine.unquoted (proceeds.quoted has)⟩

/-- At the end of the row, nothing can be taken. -/
theorem State.Fine.not_taken (fine : s'.Fine x) (ended : s.rest = x) :
    ¬ s'.rest.length + 1 ≤ s.rest.length := by
  rw [ended]
  exact Nat.not_le_of_lt (Nat.lt_succ_of_le fine.length_le)

/-- One token from the end of the row, no two can be taken. -/
theorem State.Fine.not_two_taken (fine : s'.Fine x) (few : s.rest.length ≤ x.length + 1) :
    ¬ s'.rest.length + 2 ≤ s.rest.length :=
  Nat.not_le_of_lt (Nat.lt_succ_of_le (few.trans (Nat.add_le_add_right fine.length_le 1)))

/-- The word `in` comes next, which is no operator here and does not start a line. -/
structure State.Halted (s : State) : Prop where
  mode : s.noIn = true
  word : s.current.isKeyword "in" = true
  inner : s.current.newlineBefore = false

/-- The modes differ, and one of the states is halted. -/
def Barred (s t : State) : Prop :=
  s.noIn ≠ t.noIn ∧ (s.Halted ∨ t.Halted)

/-- Two parses have read values that are alike and have come to states side by side. If they meet
loosely, one of them may be barred instead. -/
def Met [View α] (loose : Bool) (x y : List Token) (a b : α) (s t : State) : Prop :=
  (Like a b ∧ Beside x y s t) ∨ (loose = true ∧ Barred s t)

theorem Met.strict [View α] {a b : α} (met : Met false x y a b s t) : Like a b ∧ Beside x y s t :=
  met.resolve_right fun loose => nomatch loose.1

/-- What a parse comes to. -/
abbrev Outcome (α : Type) := EStateM.Result ParseError State α

/-- Parses that succeed and do not go past the ends of their rows meet. -/
def Meet [View α] (loose : Bool) (x y : List Token) (out out' : Outcome α) : Prop :=
  ∀ ⦃a b s' t'⦄, out = .ok a s' → out' = .ok b t' → s'.Fine x → t'.Fine y → Met loose x y a b s' t'

/-- The parse fails, or it goes past the end of its row. -/
def Overruns (x : List Token) (out : Outcome α) : Prop :=
  ∀ ⦃a s'⦄, out = .ok a s' → ¬ s'.Fine x

/-- Started side by side, the two parses come to states side by side and read values that are alike,
unless they go past the ends of their rows. -/
class Meets [View α] (loose : Bool) (parse parse' : Parse α) : Prop where
  meets : ∀ {x y s t}, Beside x y s t → Meet loose x y (parse s) (parse' t)

/-- A parse that is halted stays halted, or fails. It fails unless the parse is loose. -/
class Halts (loose : Bool) (parse : Parse α) : Prop where
  halts : ∀ {s : State} {a : α} {s' : State}, s.Halted → parse s = .ok a s' →
    loose = true ∧ s'.Halted

/-! ## Going too far -/

namespace Overruns

theorem of_takes {parse : Parse α} [takes : Takes 1 parse] (ends : s.Ends) (ended : s.rest = x) :
    Overruns x (parse s) :=
  fun _ _ run fine => fine.not_taken ended (takes.takes ends run)

theorem of_live {parse : Parse α} [takes : TakesLive parse] (ends : s.Ends) (ended : s.rest = x)
    (live : s.current.kind ≠ .eof) : Overruns x (parse s) :=
  fun _ _ run fine => fine.not_taken ended (takes.takes ends (ends.live live) run)

/-- A token is taken, and more behind it, but only one is left. -/
theorem of_bump {f : Token → Parse α} [takes : ∀ token, Takes 1 (f token)] (ends : s.Ends)
    (few : s.rest.length ≤ x.length + 1) (live : s.current.kind ≠ .eof) :
    Overruns x ((bump >>= f) s) := by
  intro a s' run fine
  replace run := bump_bind.symm.trans run
  have one := State.length_next (ends.live live)
  have more := (takes _).takes (ends.proceeds (State.Steps.next s).proceeds) run
  exact fine.not_two_taken few (by omega)

theorem ite {c : Bool} {yes no : Parse α} (whenYes : c = true → Overruns x (yes s))
    (whenNo : c = false → Overruns x (no s)) :
    Overruns x ((if c = true then yes else no) s) := by
  cases c
  · exact whenNo rfl
  · exact whenYes rfl

variable [View α] {out out' : Outcome α}

theorem meet (overruns : Overruns x out) : Meet loose x y out out' :=
  fun _ _ _ _ run _ fine _ => absurd fine (overruns run)

theorem meet_right (overruns : Overruns y out') : Meet loose x y out out' :=
  fun _ _ _ _ _ run' _ fine' => absurd fine' (overruns run')

end Overruns

/-! ## Decisions -/

namespace Meet

variable [View α] [View β] {c c' : Bool} {yes yes' no no' : Parse α}

/-- A decision comes out the same. -/
theorem ite (same : c = c') (whenYes : c = true → Meet loose x y (yes s) (yes' t))
    (whenNo : c = false → Meet loose x y (no s) (no' t)) :
    Meet loose x y ((if c = true then yes else no) s) ((if c' = true then yes' else no') t) := by
  subst same
  cases c
  · exact whenNo rfl
  · exact whenYes rfl

/-- A decision that leads too far on one side comes out the same if both parses meet. -/
theorem ite_overruns (far : c = true → Overruns x (yes s)) (far' : c' = true → Overruns y (yes' t))
    (whenNo : Meet loose x y (no s) (no' t)) :
    Meet loose x y ((if c = true then yes else no) s) ((if c' = true then yes' else no') t) := by
  cases c
  · cases c'
    · exact whenNo
    · exact (far' rfl).meet_right
  · exact (far rfl).meet

theorem ite_overruns_no (far : c = false → Overruns x (no s))
    (far' : c' = false → Overruns y (no' t)) (whenYes : Meet loose x y (yes s) (yes' t)) :
    Meet loose x y ((if c = true then yes else no) s) ((if c' = true then yes' else no') t) := by
  cases c
  · exact (far rfl).meet
  · cases c'
    · exact (far' rfl).meet_right
    · exact whenYes

/-- A test of the next token, which may heed the line break in front of it, comes out the same. If
it does not, both rows have ended, and the side that it leads to takes a token. The end mark does
not pass the test. -/
theorem heed {c : Token → Bool} {before : List Token} (beside : Beside x y s t)
    (behind : Behind before x y s t)
    (respects : Token.same s.current t.current = true →
      (Token.heedsBreak before s.current = true →
        s.current.newlineBefore = t.current.newlineBefore) → c s.current = c t.current)
    (quiet : ∀ {token : Token}, token.kind = .eof → c token = false) [TakesLive yes]
    [TakesLive yes']
    (whenYes : Twin s.current t.current → c s.current = true → Meet loose x y (yes s) (yes' t))
    (whenNo : Meet loose x y (no s) (no' t)) :
    Meet loose x y ((if c s.current = true then yes else no) s)
      ((if c t.current = true then yes' else no') t) := by
  rcases behind.cases with ⟨ended, ended'⟩ | ⟨twin, _, _, _, breaks⟩
  · refine ite_overruns (fun is => .of_live beside.ends ended fun eof => ?_)
      (fun is => .of_live beside.ends' ended' fun eof => ?_) whenNo
    · simp [quiet eof] at is
    · simp [quiet eof] at is
  · exact ite (respects twin.same breaks) (whenYes twin) fun _ => whenNo

theorem test {c : Token → Bool} (respects : ∀ {u v : Token}, Token.same u v = true → c u = c v)
    (quiet : ∀ {token : Token}, token.kind = .eof → c token = false) [whenNo : Meets loose no no']
    [TakesLive yes] [TakesLive yes'] (beside : Beside x y s t)
    (whenYes : Twin s.current t.current → c s.current = true → Meet loose x y (yes s) (yes' t)) :
    Meet loose x y ((if c s.current = true then yes else no) s)
      ((if c t.current = true then yes' else no') t) := by
  obtain ⟨_, behind⟩ := beside.rows
  exact heed beside behind (fun same _ => respects same) quiet whenYes (whenNo.meets beside)

/-- A test of the next two tokens comes out the same, if two tokens are taken where it is passed. -/
theorem test_two {c : State → Bool}
    (respects : Twin s.current t.current → Twin (s.peek 1) (t.peek 1) →
      (s.current.cutsOff = true → (s.peek 1).newlineBefore = (t.peek 1).newlineBefore) → c s = c t)
    (live : ∀ {s}, c s = true → s.current.kind ≠ .eof) {f f' : Token → Parse α}
    [∀ token, Takes 1 (f token)] [∀ token, Takes 1 (f' token)] (beside : Beside x y s t)
    (whenYes : c s = true → Meet loose x y ((bump >>= f) s) ((bump >>= f') t))
    (whenNo : Meet loose x y (no s) (no' t)) :
    Meet loose x y ((if c s = true then bump >>= f else no) s)
      ((if c t = true then bump >>= f' else no') t) := by
  rcases beside.two with ⟨few, few'⟩ | ⟨first, second, breaks⟩
  · exact ite_overruns (fun is => .of_bump beside.ends few (live is))
      (fun is => .of_bump beside.ends' few' (live is)) whenNo
  · exact ite (respects first second breaks) whenYes fun _ => whenNo

/-- The second parses start where the first have come to. -/
theorem bind {first : Bool} {parse parse' : Parse β} {f f' : β → Parse α}
    [proceeds : ∀ b, Proceeds (f b)] [proceeds' : ∀ b, Proceeds (f' b)]
    (begins : Meet first x y (parse s) (parse' t))
    (halts : first = true → ∀ b, Halts loose (f b) ∧ Halts loose (f' b))
    (goesOn : ∀ ⦃b b' r r'⦄, parse s = .ok b r → parse' t = .ok b' r' → Like b b' →
      Beside x y r r' → Meet loose x y (f b r) (f' b' r')) :
    Meet loose x y ((parse >>= f) s) ((parse' >>= f') t) := by
  intro a a' s' t' run run' fine fine'
  obtain ⟨b, r, run, next⟩ := bind_eq_ok.1 run
  obtain ⟨b', r', run', next'⟩ := bind_eq_ok.1 run'
  have on := (proceeds b).proceeds next
  have on' := (proceeds' b').proceeds next'
  rcases begins run run' (fine.of_proceeds on) (fine'.of_proceeds on') with
    ⟨like, beside⟩ | ⟨isLoose, modes, halted⟩
  · exact goesOn run run' like beside next next' fine fine'
  · have modes : s'.noIn ≠ t'.noIn := by rwa [on.mode, on'.mode]
    rcases halted with halted | halted
    · obtain ⟨isLoose, halted⟩ := (halts isLoose b).1.halts halted next
      exact .inr ⟨isLoose, modes, .inl halted⟩
    · obtain ⟨isLoose, halted⟩ := (halts isLoose b').2.halts halted next'
      exact .inr ⟨isLoose, modes, .inr halted⟩

theorem bind_strict {parse parse' : Parse β} {f f' : β → Parse α} [∀ b, Proceeds (f b)]
    [∀ b, Proceeds (f' b)] (begins : Meet false x y (parse s) (parse' t))
    (goesOn : ∀ ⦃b b' r r'⦄, parse s = .ok b r → parse' t = .ok b' r' → Like b b' →
      Beside x y r r' → Meet loose x y (f b r) (f' b' r')) :
    Meet loose x y ((parse >>= f) s) ((parse' >>= f') t) :=
  begins.bind (fun absurd => nomatch absurd) goesOn

end Meet

/-- A token is taken on both sides, or the source has ended. -/
theorem Beside.next (beside : Beside x y s t) (fine : s.next.Fine x) (fine' : t.next.Fine y) :
    Twin s.current t.current ∧ Beside x y s.next t.next := by
  rcases beside.cases with ⟨ended, ended'⟩ | ⟨twin, _, _, beside⟩
  · -- nothing can be taken, so the end of the source has come
    have empty : s.rest = [] := by
      by_contra live
      exact fine.not_taken ended (State.length_next live).le
    have empty' : t.rest = [] := by
      by_contra live
      exact fine'.not_taken ended' (State.length_next live).le
    have next : s.next = s := by rw [State.next, empty]
    have next' : t.next = t := by rw [State.next, empty']
    rw [next, next', State.current, State.peek, State.current, State.peek, empty, empty',
      beside.stop]
    exact ⟨.of_eof beside.ends', beside⟩
  · exact ⟨twin, beside⟩

/-- A token is taken. -/
theorem Meet.bump [View α] {f f' : Token → Parse α} [proceeds : ∀ token, Proceeds (f token)]
    [proceeds' : ∀ token, Proceeds (f' token)] (beside : Beside x y s t)
    (goesOn : Twin s.current t.current → Beside x y s.next t.next →
      Meet loose x y (f s.current s.next) (f' t.current t.next)) :
    Meet loose x y ((Grammar.bump >>= f) s) ((Grammar.bump >>= f') t) := by
  rw [bump_bind, bump_bind]
  intro a b s' t' run run' fine fine'
  obtain ⟨twin, beside⟩ := beside.next (fine.of_proceeds ((proceeds _).proceeds run))
    (fine'.of_proceeds ((proceeds' _).proceeds run'))
  exact goesOn twin beside run run' fine fine'

/-- A token that is not the end mark is taken, and what comes behind it may heed it. -/
theorem Meet.take [View α] {f f' : Token → Parse α} [∀ token, Proceeds (f token)]
    {before : List Token} (beside : Beside x y s t) (behind : Behind before x y s t)
    (live : s.current.kind ≠ .eof)
    (goesOn : Twin s.current t.current → Beside x y s.next t.next →
      Behind (s.current :: before) x y s.next t.next →
        Meet loose x y (f s.current s.next) (f' t.current t.next)) :
    Meet loose x y ((Grammar.bump >>= f) s) ((Grammar.bump >>= f') t) := by
  rcases behind.cases with ⟨ended, _⟩ | ⟨twin, _, _, next, _⟩
  · exact (Overruns.of_live beside.ends ended live).meet
  · rw [bump_bind, bump_bind]
    exact goesOn twin (beside.of_next next) next

/-! ## Steps in a row -/

/-- Two values that are alike, read side by side. -/
structure Pair (α : Type) [View α] where
  left : α
  right : α
  like : Like left right

attribute [instance] Pair.like

/-- Two tokens that are twins, taken side by side. -/
structure Twins where
  left : Token
  right : Token
  twin : Twin left right

namespace Twins

theorem kind (pair : Twins) : pair.left.kind = pair.right.kind :=
  Token.kind_eq_of_same pair.twin.same

theorem text (pair : Twins) (noString : ∀ value, pair.left.kind ≠ .string value) :
    pair.left.text = pair.right.text :=
  Token.text_eq_of_same pair.twin.same noString

theorem isPunct (pair : Twins) (text : String) :
    pair.left.isPunct text = pair.right.isPunct text :=
  Token.isPunct_eq_of_same pair.twin.same text

theorem isIdentifier (pair : Twins) (text : String) :
    pair.left.isIdentifier text = pair.right.isIdentifier text :=
  Token.isIdentifier_eq_of_same pair.twin.same text

theorem isKeyword (pair : Twins) (text : String) :
    pair.left.isKeyword text = pair.right.isKeyword text :=
  Token.isKeyword_eq_of_same pair.twin.same text

end Twins

/-- Two names, taken side by side. -/
structure Names where
  left : Token
  right : Token
  text : left.text = right.text

instance (pair : Names) : Like pair.left.text pair.right.text :=
  ⟨pair.text⟩

theorem isPunct_of_eof {token : Token} {text : String} (eof : token.kind = .eof) :
    token.isPunct text = false := by
  simp [Token.isPunct, eof]

theorem isKeyword_of_eof {token : Token} {text : String} (eof : token.kind = .eof) :
    token.isKeyword text = false := by
  simp [Token.isKeyword, eof]

theorem atName_bind {f : Bool → Parse α} :
    (atName >>= f) s = f (decide (s.current.kind = .identifier)) s :=
  rfl

theorem eatPunct_bind_eq {text : String} {f : Bool → Parse α} :
    (eatPunct text >>= f) s =
      (if s.current.isPunct text = true then bump >>= fun _ => f true else f false) s := by
  rw [eatPunct_bind, ite_run, bump_bind]

namespace Meets

variable [View α] [View β] {text : String} {yes yes' no no' : Parse α} {f f' : Token → Parse α}

instance unfolds {x x' y y' : Parse α} [unfolds : Unfolds x y] [unfolds' : Unfolds x' y']
    [meets : Meets loose y y'] : Meets loose x x' :=
  unfolds.eq ▸ unfolds'.eq ▸ meets

theorem of_strict {parse parse' : Parse α} (strict : Meets false parse parse') :
    Meets loose parse parse' where
  meets beside _ _ _ _ run run' fine fine' :=
    .inl (strict.meets beside run run' fine fine').strict

instance (priority := low) bind_loose {parse parse' : Parse β} {f f' : β → Parse α}
    [begins : Meets true parse parse'] [halts : ∀ b, Halts loose (f b)]
    [halts' : ∀ b, Halts loose (f' b)] [∀ b, Proceeds (f b)] [∀ b, Proceeds (f' b)]
    [goesOn : ∀ pair : Pair β, Meets loose (f pair.left) (f' pair.right)] :
    Meets loose (parse >>= f) (parse' >>= f') where
  meets beside := (begins.meets beside).bind (fun _ b => ⟨halts b, halts' b⟩)
    fun b b' _ _ _ _ like beside => (goesOn ⟨b, b', like⟩).meets beside

instance bind {parse parse' : Parse β} {f f' : β → Parse α} [begins : Meets false parse parse']
    [∀ b, Proceeds (f b)] [∀ b, Proceeds (f' b)]
    [goesOn : ∀ pair : Pair β, Meets loose (f pair.left) (f' pair.right)] :
    Meets loose (parse >>= f) (parse' >>= f') where
  meets beside := (begins.meets beside).bind_strict
    fun b b' _ _ _ _ like beside => (goesOn ⟨b, b', like⟩).meets beside

instance pure {a b : α} [like : Like a b] : Meets loose (Pure.pure a) (Pure.pure b) where
  meets beside _ _ _ _ run run' _ _ := by
    obtain ⟨rfl, rfl⟩ := pure_eq_ok.1 run
    obtain ⟨rfl, rfl⟩ := pure_eq_ok.1 run'
    exact .inl ⟨like, beside⟩

instance expected (what : String) {parse' : Parse α} :
    Meets loose (Grammar.expected what) parse' where
  meets _ := Overruns.meet fun _ _ run => absurd run expected_ne_ok

instance unexpected {parse' : Parse α} : Meets loose Grammar.unexpected parse' where
  meets _ := Overruns.meet fun _ _ run => absurd run unexpected_ne_ok

theorem unexpected_right {parse : Parse α} : Meets loose parse Grammar.unexpected where
  meets _ := Overruns.meet_right fun _ _ run => absurd run unexpected_ne_ok

instance ite {c : Prop} [Decidable c] [whenYes : Meets loose yes yes']
    [whenNo : Meets loose no no'] :
    Meets loose (if c then yes else no) (if c then yes' else no') := by
  split
  · exact whenYes
  · exact whenNo

/-- Sides that fail need not be decided for alike. -/
instance ite_expected {c c' : Prop} [Decidable c] [Decidable c'] {what : String}
    [whenYes : Meets loose yes yes'] :
    Meets loose (if c then yes else Grammar.expected what)
      (if c' then yes' else Grammar.expected what) := by
  split
  · split
    · exact whenYes
    · exact ⟨fun _ => Overruns.meet_right fun _ _ run => absurd run expected_ne_ok⟩
  · infer_instance

instance expected_ite {c c' : Prop} [Decidable c] [Decidable c'] {what : String}
    [Meets loose no no'] :
    Meets loose (if c then Grammar.expected what else no)
      (if c' then Grammar.expected what else no') := by
  simp only [← ite_not c, ← ite_not c']
  infer_instance

/-- Inside, the modes are the same. -/
instance withNoIn {parse parse' : Parse α} [inner : Meets true parse parse']
    [proceeds : Proceeds parse] [proceeds' : Proceeds parse'] {noIn : Bool} :
    Meets loose (Grammar.withNoIn noIn parse) (Grammar.withNoIn noIn parse') where
  meets {x y s t} beside _ _ _ _ run run' fine fine' := by
    obtain ⟨r, inside, rfl⟩ := withNoIn_eq_ok.1 run
    obtain ⟨r', inside', rfl⟩ := withNoIn_eq_ok.1 run'
    have entered : Beside x y (s.inMode noIn) (t.inMode noIn) := beside.of_rest rfl rfl rfl rfl
    rcases inner.meets entered inside inside' ⟨fine.length_le, fine.unquoted⟩
      ⟨fine'.length_le, fine'.unquoted⟩ with ⟨like, beside⟩ | ⟨_, modes, _⟩
    · exact .inl ⟨like, beside.of_rest rfl rfl rfl rfl⟩
    · exact absurd ((proceeds.proceeds inside).mode.trans (proceeds'.proceeds inside').mode.symm)
        modes

/-! ### Looking and taking -/

/-- Where a value of the state is only looked at, and nothing hangs on it. -/
instance current [goesOn : ∀ token token', Meets loose (f token) (f' token')] :
    Meets loose (Grammar.current >>= f) (Grammar.current >>= f') where
  meets beside := (goesOn _ _).meets beside

instance bump [∀ token, Proceeds (f token)] [∀ token, Proceeds (f' token)]
    [goesOn : ∀ pair : Twins, Meets loose (f pair.left) (f' pair.right)] :
    Meets loose (Grammar.bump >>= f) (Grammar.bump >>= f') where
  meets beside := .bump beside fun twin beside => (goesOn ⟨_, _, twin⟩).meets beside

/-- The token is looked at and then taken. -/
theorem current_taken (takes : Takes 1 (Grammar.current >>= f))
    (goesOn : ∀ pair : Twins, Meets loose (f pair.left) (f' pair.right)) :
    Meets loose (Grammar.current >>= f) (Grammar.current >>= f') where
  meets beside := by
    rcases beside.cases with ⟨ended, _⟩ | ⟨twin, _⟩
    · exact (Overruns.of_takes beside.ends ended).meet
    · exact (goesOn ⟨_, _, twin⟩).meets beside

instance expectPunct : Meets loose (Grammar.expectPunct text) (Grammar.expectPunct text) where
  meets beside _ _ _ _ run run' fine fine' := by
    obtain ⟨_, rfl, rfl⟩ := expectPunct_eq_ok.1 run
    obtain ⟨_, rfl, rfl⟩ := expectPunct_eq_ok.1 run'
    exact .inl ((beside.next fine fine').imp_left Twin.like)

instance expectKeyword :
    Meets loose (Grammar.expectKeyword text) (Grammar.expectKeyword text) where
  meets beside _ _ _ _ run run' fine fine' := by
    obtain ⟨_, rfl, rfl⟩ := expectKeyword_eq_ok.1 run
    obtain ⟨_, rfl, rfl⟩ := expectKeyword_eq_ok.1 run'
    exact .inl ((beside.next fine fine').imp_left Twin.like)

/-! ### Completing nodes -/

instance finishExpr {start start' : Nat} {build build' : Mark → Expr Mark}
    [like : ∀ mark mark', Like (build mark) (build' mark')] :
    Meets loose (Grammar.finishExpr start build) (Grammar.finishExpr start' build') where
  meets beside _ _ _ _ run run' _ _ := by
    cases run
    cases run'
    exact .inl ⟨like _ _, beside.of_rest rfl rfl rfl rfl⟩

instance finishStmt {start start' : Nat} {build build' : Mark → Stmt Mark}
    [like : ∀ mark mark', Like (build mark) (build' mark')] :
    Meets loose (Grammar.finishStmt start build) (Grammar.finishStmt start' build') where
  meets beside _ _ _ _ run run' _ _ := by
    cases run
    cases run'
    exact .inl ⟨like _ _, beside.of_rest rfl rfl rfl rfl⟩

/-- A name in quotes would be seen. -/
instance pushExpr {span span' : Span} (pair : Twins) :
    Meets loose (Grammar.pushExpr span (.identifier · pair.left.text))
      (Grammar.pushExpr span' (.identifier · pair.right.text)) where
  meets beside _ _ _ _ run run' fine _ := by
    cases run
    cases run'
    rcases pair.twin.text with same | quoted
    · rw [same]
      exact .inl ⟨inferInstance, beside.of_rest rfl rfl rfl rfl⟩
    · exact absurd ⟨_, Array.mem_push_self, quoted⟩ fine.unquoted

instance pushStmt {span span' : Span} {build build' : Mark → Stmt Mark}
    [like : ∀ mark mark', Like (build mark) (build' mark')] :
    Meets loose (Grammar.pushStmt span build) (Grammar.pushStmt span' build') where
  meets beside _ _ _ _ run run' _ _ := by
    cases run
    cases run'
    exact .inl ⟨like _ _, beside.of_rest rfl rfl rfl rfl⟩

/-! ### Tests -/

/-- The side that a test leads away from takes a token. -/
theorem test_no {c : Token → Bool} (respects : ∀ {u v : Token}, Token.same u v = true → c u = c v)
    [whenYes : Meets loose yes yes'] [whenNo : Meets loose no no'] [Takes 1 no] [Takes 1 no']
    (beside : Beside x y s t) :
    Meet loose x y ((if c s.current = true then yes else no) s)
      ((if c t.current = true then yes' else no') t) := by
  rcases beside.cases with ⟨ended, ended'⟩ | ⟨twin, _⟩
  · exact .ite_overruns_no (fun _ => .of_takes beside.ends ended)
      (fun _ => .of_takes beside.ends' ended') (whenYes.meets beside)
  · exact .ite (respects twin.same) (fun _ => whenYes.meets beside) fun _ => whenNo.meets beside

instance atPunct_no [Meets loose yes yes'] [Meets loose no no'] [Takes 1 no] [Takes 1 no'] :
    Meets loose (Grammar.atPunct text >>= fun b => if b = true then yes else no)
      (Grammar.atPunct text >>= fun b => if b = true then yes' else no') where
  meets beside := test_no (Token.isPunct_eq_of_same · text) beside

instance atPunct_not [Meets loose yes yes'] [Meets loose no no'] [Takes 1 yes] [Takes 1 yes'] :
    Meets loose (Grammar.atPunct text >>= fun b => if (!b) = true then yes else no)
      (Grammar.atPunct text >>= fun b => if (!b) = true then yes' else no') := by
  simp only [Bool.not_eq_true', ← Bool.not_eq_true, ite_not]
  infer_instance

theorem test_name [Meets loose no no'] [TakesLive yes] [TakesLive yes'] (beside : Beside x y s t)
    (whenYes : s.current.kind = .identifier → Meet loose x y (yes s) (yes' t)) :
    Meet loose x y ((Grammar.atName >>= fun b => if b = true then yes else no) s)
      ((Grammar.atName >>= fun b => if b = true then yes' else no') t) :=
  .test (c := fun token => decide (token.kind = .identifier))
    (fun same => by rw [Token.kind_eq_of_same same]) (fun eof => by simp [eof]) beside
    fun _ is => whenYes (of_decide_eq_true is)

/-- What is taken is no string, so that its text is the same on both sides. -/
theorem bump_named [∀ token, Proceeds (f token)] [∀ token, Proceeds (f' token)]
    (goesOn : ∀ pair : Names, Meets loose (f pair.left) (f' pair.right)) (beside : Beside x y s t)
    (noString : ∀ value, s.current.kind ≠ .string value) :
    Meet loose x y ((Grammar.bump >>= f) s) ((Grammar.bump >>= f') t) :=
  .bump beside fun twin beside =>
    (goesOn ⟨_, _, Token.text_eq_of_same twin.same noString⟩).meets beside

/-- A test of the next token decides, and the side it leads to takes the token. -/
theorem looked {c : Token → Bool} (respects : ∀ {u v : Token}, Token.same u v = true → c u = c v)
    (quiet : ∀ {token : Token}, token.kind = .eof → c token = false) {yes yes' : Token → Parse α}
    [Meets loose no no'] [∀ token, TakesLive (yes token)] [∀ token, TakesLive (yes' token)]
    (whenYes : ∀ {x y s t} (pair : Twins), Beside x y s t → s.current = pair.left →
      c pair.left = true → Meet loose x y (yes pair.left s) (yes' pair.right t)) :
    Meets loose (Grammar.current >>= fun token => if c token = true then yes token else no)
      (Grammar.current >>= fun token => if c token = true then yes' token else no') where
  meets beside := .test respects quiet beside fun twin is => whenYes ⟨_, _, twin⟩ beside rfl is

instance atName_bump
    [whenYes : ∀ pair : Names, Meets loose (f pair.left) (f' pair.right)] [Meets loose no no']
    [∀ token, Proceeds (f token)] [∀ token, Proceeds (f' token)] :
    Meets loose (Grammar.atName >>= fun b => if b = true then Grammar.bump >>= f else no)
      (Grammar.atName >>= fun b => if b = true then Grammar.bump >>= f' else no') where
  meets beside := test_name beside fun isName => bump_named whenYes beside (by simp [isName])

section Leading

variable [whenYes : Meets loose yes yes'] [Meets loose no no'] [TakesLive yes] [TakesLive yes']

instance atPunct :
    Meets loose (Grammar.atPunct text >>= fun b => if b = true then yes else no)
      (Grammar.atPunct text >>= fun b => if b = true then yes' else no') where
  meets beside := .test (Token.isPunct_eq_of_same · text) isPunct_of_eof beside
    fun _ _ => whenYes.meets beside

instance atKeyword :
    Meets loose (Grammar.atKeyword text >>= fun b => if b = true then yes else no)
      (Grammar.atKeyword text >>= fun b => if b = true then yes' else no') where
  meets beside := .test (Token.isKeyword_eq_of_same · text) isKeyword_of_eof beside
    fun _ _ => whenYes.meets beside

instance atName :
    Meets loose (Grammar.atName >>= fun b => if b = true then yes else no)
      (Grammar.atName >>= fun b => if b = true then yes' else no') where
  meets beside := test_name beside fun _ => whenYes.meets beside

instance atIdentifier :
    Meets loose
      (Grammar.current >>= fun token => if token.isIdentifier text = true then yes else no)
      (Grammar.current >>= fun token => if token.isIdentifier text = true then yes' else no') where
  meets beside := .test (Token.isIdentifier_eq_of_same · text)
    (fun eof => by simp [Token.isIdentifier, eof]) beside fun _ _ => whenYes.meets beside

end Leading

instance eatPunct {f f' : Bool → Parse α} [whenYes : Meets loose (f true) (f' true)]
    [Meets loose (f false) (f' false)] [Proceeds (f true)] [Proceeds (f' true)] :
    Meets loose (Grammar.eatPunct text >>= f) (Grammar.eatPunct text >>= f') where
  meets beside := by
    rw [eatPunct_bind_eq, eatPunct_bind_eq]
    exact .test (Token.isPunct_eq_of_same · text) isPunct_of_eof beside
      fun _ _ => Meets.meets beside

instance endStatement : Meets loose Grammar.endStatement Grammar.endStatement := by
  unfold Grammar.endStatement
  infer_instance

/-- The end of the source is where a statement is due. -/
instance atEnd {what : String} {f f' : β → Parse α} [inner : Meets loose no no'] :
    Meets loose
      (Grammar.atEnd >>= fun b => if b = true then Grammar.expected what >>= f else no)
      (Grammar.atEnd >>= fun b => if b = true then Grammar.expected what >>= f' else no') where
  meets beside := by
    have fails {z s} {f : β → Parse α} : Overruns z ((Grammar.expected what >>= f) s) := by
      intro a s' run
      obtain ⟨_, _, failed, _⟩ := bind_eq_ok.1 run
      exact absurd failed expected_ne_ok
    exact .ite_overruns (fun _ => fails) (fun _ => fails) (inner.meets beside)

end Meets

/-! ## Halted parses -/

theorem State.Halted.kind (halted : s.Halted) : s.current.kind = .keyword := by
  have word := halted.word
  simp_all [Token.isKeyword]

theorem State.Halted.isPunct (halted : s.Halted) (text : String) :
    s.current.isPunct text = false := by
  simp [Token.isPunct, halted.kind]

namespace Halts

variable {text : String} {yes no : Parse α}

theorem of_stays {parse : Parse α}
    (stays : ∀ {s a s'}, s.Halted → parse s = .ok a s' → s'.rest = s.rest ∧ s'.stop = s.stop ∧
      s'.noIn = s.noIn) : Halts true parse where
  halts {s a s'} halted run := by
    obtain ⟨rest, stop, mode⟩ := stays halted run
    have same : s'.current = s.current := by simp only [State.current, State.peek, rest, stop]
    exact ⟨rfl, mode.trans halted.mode, same ▸ halted.word, same ▸ halted.inner⟩

instance pure {a : α} : Halts true (Pure.pure a) :=
  .of_stays fun _ run => (pure_eq_ok.1 run).2 ▸ ⟨rfl, rfl, rfl⟩

instance finishExpr {start : Nat} {build : Mark → Expr Mark} :
    Halts true (Grammar.finishExpr start build) :=
  .of_stays fun _ run => by cases run; exact ⟨rfl, rfl, rfl⟩

instance finishStmt {start : Nat} {build : Mark → Stmt Mark} :
    Halts true (Grammar.finishStmt start build) :=
  .of_stays fun _ run => by cases run; exact ⟨rfl, rfl, rfl⟩

instance expectPunct : Halts loose (Grammar.expectPunct text) where
  halts halted run := by
    have is := (expectPunct_eq_ok.1 run).1
    simp [halted.isPunct] at is

instance endStatement : Halts loose Grammar.endStatement where
  halts {s a s'} halted run := by
    rcases endStatement_eq_ok.1 run with ⟨is, _⟩ | ⟨_, ends, _⟩
    · simp [halted.isPunct] at is
    · simp [endsStatement, halted.isPunct, halted.kind, halted.inner] at ends

instance fails {parse : Parse β} {f : β → Parse α} [first : Halts false parse] :
    Halts loose (parse >>= f) where
  halts halted run := by
    obtain ⟨b, _, run, _⟩ := bind_eq_ok.1 run
    exact absurd (first.halts halted run).1 (by simp)

instance bind {parse : Parse β} {f : β → Parse α} [first : Halts true parse]
    [last : ∀ b, Halts loose (f b)] : Halts loose (parse >>= f) where
  halts halted run := by
    obtain ⟨b, _, run, run'⟩ := bind_eq_ok.1 run
    exact (last b).halts (first.halts halted run).2 run'

instance atPunct [inner : Halts loose no] :
    Halts loose (Grammar.atPunct text >>= fun b => if b = true then yes else no) where
  halts halted run := by
    rw [atPunct_bind, halted.isPunct] at run
    exact inner.halts halted run

instance atPunct_not [inner : Halts loose yes] :
    Halts loose (Grammar.atPunct text >>= fun b => if (!b) = true then yes else no) := by
  simp only [Bool.not_eq_true', ← Bool.not_eq_true, ite_not]
  infer_instance

end Halts

/-! ## Loops -/

/-- The parse asks whether a loop ends. It takes no token if it does, and gives the same answer side
by side, unless one of the loops goes on past the end of its row. -/
class Asks (stop : Parse Bool) : Prop where
  meets : ∀ {γ : Type} [View γ] {loose : Bool} {yes yes' no no' : Parse γ} [Meets loose yes yes']
    [Meets loose no no'] [Proceeds yes] [Proceeds yes'] [Proceeds no] [Proceeds no'] [Takes 1 no]
    [Takes 1 no'],
      Meets loose (stop >>= fun b => if b = true then yes else no)
        (stop >>= fun b => if b = true then yes' else no')

/-- A loop goes on while commas follow. -/
abbrev noComma : Parse Bool := do
  return !(← eatPunct ",")

instance {text : String} : Asks (atPunct text) := ⟨inferInstance⟩

instance {text : String} : Asks (eatPunct text) := ⟨inferInstance⟩

instance : Asks noComma where
  meets {γ _ loose yes yes' no no'} _ _ _ _ _ _ _ _ := by
    simp only [noComma, bind_assoc, pure_bind]
    infer_instance

theorem Halts.manyUpTo_noComma {item : Parse α} (bound : Nat) :
    Halts true (manyUpTo noComma item bound) where
  halts {s items s'} halted run := by
    cases bound with
    | zero => exact absurd run manyUpTo_zero
    | succ bound =>
      rcases manyUpTo_succ.1 run with ⟨asked, _⟩ | ⟨_, _, _, _, asked, _⟩
      · obtain ⟨_, rfl⟩ := noComma_eq_ok.1 asked
        exact ⟨rfl, halted⟩
      · obtain ⟨comma, _⟩ := noComma_eq_ok.1 asked
        simp [halted.isPunct] at comma

instance Halts.manyUntil_noComma {item : Parse α} : Halts true (manyUntil noComma item) where
  halts halted run := (Halts.manyUpTo_noComma _).halts halted (manyUntil_eq_ok.1 run)

theorem extendUpTo_eq_bind (step : α → Parse (Option α)) (bound : Nat) (v : α) :
    extendUpTo step (bound + 1) v =
      step v >>= fun longer? => longer?.elim (pure v) (extendUpTo step bound) := by
  rw [extendUpTo]
  congr
  funext longer?
  cases longer? <;> rfl

instance Proceeds.elim {v : α} {parse : β → Parse α} [∀ b, Proceeds (parse b)]
    (longer? : Option β) : Proceeds (longer?.elim (Pure.pure v) parse) := by
  cases longer? <;> simp only [Option.elim] <;> infer_instance

instance Halts.elim {v : α} {parse : β → Parse α} [∀ b, Halts true (parse b)]
    (longer? : Option β) : Halts true (longer?.elim (Pure.pure v) parse) := by
  cases longer? <;> simp only [Option.elim] <;> infer_instance

namespace Meets

variable [View α]

section Many

variable {stop : Parse Bool} {item item' : Parse α} [Steps item] [Steps item'] [Takes 1 item]
  [Takes 1 item']

/-- Items that take tokens are read in step. -/
theorem manyUpTo [asks : Asks stop] [each : Meets loose item item'] [Steps stop]
    (halts : loose = true → ∀ bound, Halts loose (Grammar.manyUpTo stop item bound) ∧
      Halts loose (Grammar.manyUpTo stop item' bound)) (bound bound' : Nat) :
    Meets loose (Grammar.manyUpTo stop item bound) (Grammar.manyUpTo stop item' bound') := by
  induction bound generalizing bound' with
  | zero => exact inferInstanceAs (Meets loose Grammar.unexpected _)
  | succ bound ih =>
    cases bound' with
    | zero => exact unexpected_right
    | succ bound' =>
      have ih := ih bound'
      have more : Meets loose
          (item >>= fun first => Grammar.manyUpTo stop item bound >>= fun others =>
            Pure.pure (first :: others))
          (item' >>= fun first => Grammar.manyUpTo stop item' bound' >>= fun others =>
            Pure.pure (first :: others)) := by
        cases loose with
        | false => infer_instance
        | true =>
          have goesOn := (halts rfl bound).1
          have goesOn' := (halts rfl bound').2
          infer_instance
      exact asks.meets

instance manyUntil [Asks stop] [Meets false item item'] [Steps stop] :
    Meets loose (Grammar.manyUntil stop item) (Grammar.manyUntil stop item') :=
  .of_strict ⟨fun beside =>
    (manyUpTo (fun absurd : false = true => nomatch absurd) _ _).meets beside⟩

instance manyUntil_noComma [Meets true item item'] :
    Meets true (Grammar.manyUntil noComma item) (Grammar.manyUntil noComma item') where
  meets beside :=
    (manyUpTo (fun _ bound => ⟨.manyUpTo_noComma bound, .manyUpTo_noComma bound⟩) _ _).meets beside

end Many

omit [View α] in
theorem overruns_of_comma [View β] {item : Parse β} [Steps item] {f : List β → Parse α}
    [proceeds : ∀ items, Proceeds (f items)] (ends : s.Ends) (ended : s.rest = x)
    (comma : s.current.isPunct "," = true) :
    Overruns x ((Grammar.manyUntil noComma item >>= f) s) := by
  intro a s' run fine
  obtain ⟨items, r, many, run⟩ := bind_eq_ok.1 run
  refine (fine.of_proceeds ((proceeds _).proceeds run)).not_taken ended ?_
  rcases manyUpTo_succ.1 (manyUntil_eq_ok.1 many) with
    ⟨asked, _⟩ | ⟨_, _, _, _, asked, one, more, _⟩
  · have noComma := (noComma_eq_ok.1 asked).1
    simp [comma] at noComma
  · obtain ⟨_, rfl⟩ := noComma_eq_ok.1 asked
    have behind := (Steps.steps one).proceeds.trans (Steps.steps more).proceeds
    exact (Nat.add_le_add_right behind.length_le 1).trans
      (State.length_next (ends.live_of_isPunct comma)).le

/-- Further items follow behind a comma. -/
instance atComma [View β] {item item' : Parse β} {f f' : List β → Parse α} {no no' : Parse α}
    [whenYes : Meets loose (Grammar.manyUntil noComma item >>= f)
      (Grammar.manyUntil noComma item' >>= f')] [whenNo : Meets loose no no'] [Steps item]
    [Steps item'] [∀ items, Proceeds (f items)] [∀ items, Proceeds (f' items)] :
    Meets loose
      (Grammar.atPunct "," >>= fun b =>
        if b = true then Grammar.manyUntil noComma item >>= f else no)
      (Grammar.atPunct "," >>= fun b =>
        if b = true then Grammar.manyUntil noComma item' >>= f' else no') where
  meets beside := by
    rcases beside.cases with ⟨ended, ended'⟩ | ⟨twin, _⟩
    · exact .ite_overruns (overruns_of_comma beside.ends ended)
        (overruns_of_comma beside.ends' ended') (whenNo.meets beside)
    · exact .ite (Token.isPunct_eq_of_same twin.same ",") (fun _ => whenYes.meets beside)
        fun _ => whenNo.meets beside

section Extend

variable {step step' : α → Parse (Option α)} [∀ v, Steps (step v)] [∀ v, Steps (step' v)]
  (each : ∀ pair : Pair α, Meets loose (step pair.left) (step' pair.right))
  (halts : loose = true → ∀ bound v, Halts loose (Grammar.extendUpTo step bound v) ∧
    Halts loose (Grammar.extendUpTo step' bound v)) {v v' : α}
include each halts

/-- A value is extended in step. -/
theorem extendUpTo (bound bound' : Nat) (pair : Pair α) :
    Meets loose (Grammar.extendUpTo step bound pair.left)
      (Grammar.extendUpTo step' bound' pair.right) := by
  induction bound generalizing bound' pair with
  | zero => exact inferInstanceAs (Meets loose Grammar.unexpected _)
  | succ bound ih =>
    cases bound' with
    | zero => exact unexpected_right
    | succ bound' =>
      rw [extendUpTo_eq_bind, extendUpTo_eq_bind]
      refine ⟨fun beside => ((each pair).meets beside).bind (fun isLoose longer? => ?_)
        fun longer? longer?' _ _ _ _ like beside => ?_⟩
      · subst isLoose
        have goesOn := fun v => (halts rfl bound v).1
        have goesOn' := fun v => (halts rfl bound' v).2
        exact ⟨inferInstance, inferInstance⟩
      · cases longer? <;> cases longer?'
        · have like := pair.like
          exact Meets.pure.meets beside
        · cases like.alike
        · cases like.alike
        · exact (ih bound' ⟨_, _, ⟨Option.some.inj like.alike⟩⟩).meets beside

theorem extend_of (like : Like v v') : Meets loose (Grammar.extend step v) (Grammar.extend step' v') where
  meets beside := (extendUpTo each halts _ _ ⟨v, v', like⟩).meets beside

omit each halts in
instance extend [each : ∀ pair : Pair α, Meets false (step pair.left) (step' pair.right)]
    [like : Like v v'] : Meets loose (Grammar.extend step v) (Grammar.extend step' v') :=
  .of_strict (extend_of each (fun absurd : false = true => nomatch absurd) like)

end Extend

end Meets

end TidyScript.Grammar
