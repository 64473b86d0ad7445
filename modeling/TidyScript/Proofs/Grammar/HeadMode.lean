import Mathlib.Data.List.Chain
import TidyScript.Proofs.Grammar.Balance
import TidyScript.Proofs.Text.Answer

/-!
# The mode of a loop's head

In the head of a loop the word `in` is no operator. Most brackets lift this for what is in them, so
an expression with such a word only in its brackets is read alike in both modes. Four kinds of
brackets do not lift it: those of an optional member, those of a member under `new`, the braces of
a function and the braces of a class. Behind one of these the word must not occur.

What counts is the row of tokens outside the brackets, since a production closes the brackets that
it opens. A production that sets the mode itself is neutral, whatever it reads. A row without the
word `in` is read alike by every production.
-/

namespace TidyScript

/-- The number of open brackets behind the token, with so many open before. -/
def Token.deepen (token : Token) (depth : Nat) : Nat :=
  if token.opens then depth + 1 else if token.closes then depth - 1 else depth

namespace Grammar

-- productions are long rows of steps
set_option synthInstance.maxSize 1000000000

variable {α β : Type} {p : Productions} {s s' s'' : State}

/-! ## Outside of brackets -/

/-- The tokens of a row outside of brackets, with those that open a bracket. With each goes the row
behind it. -/
def bare (depth : Nat) : List Token → List (Token × List Token)
  | [] => []
  | token :: rest =>
    if depth = 0 then (token, rest) :: bare (token.deepen depth) rest
    else bare (token.deepen depth) rest

theorem bare_append (depth : Nat) (first second : List Token) :
    bare depth (first ++ second) =
      (bare depth first).map (fun part => (part.1, part.2 ++ second)) ++
        bare (first.foldl (fun depth token => token.deepen depth) depth) second := by
  induction first generalizing depth with
  | nil => rfl
  | cons token first ih =>
    simp only [List.cons_append, bare, ih, List.foldl_cons]
    split <;> rfl

theorem deepen_le (token : Token) (depth : Nat) :
    (token.deepen depth : Int) ≤ max (depth + token.turn) 0 := by
  unfold Token.deepen Token.turn
  split
  · omega
  · split <;> omega

theorem foldl_deepen_eq_zero {row : List Token} {depth : Nat} (whole : depth + net row ≤ 0)
    (ends : ∀ part, part <:+ row → net part ≤ 0) :
    row.foldl (fun depth token => token.deepen depth) depth = 0 := by
  induction row generalizing depth with
  | nil => simpa [net] using whole
  | cons token row ih =>
    refine ih ?_ fun part isEnd => ends part (isEnd.trans (List.suffix_cons ..))
    have rest := ends row (List.suffix_cons ..)
    have deeper := deepen_le token depth
    rw [net] at whole
    dsimp only
    omega

/-- Behind brackets that have been closed, one is outside of brackets again. -/
theorem bare_append_of_settles {first : List Token} (settles : Settles 0 first)
    (second : List Token) : bare 0 (first ++ second) =
      (bare 0 first).map (fun part => (part.1, part.2 ++ second)) ++ bare 0 second := by
  have whole : (0 : Nat) + net first ≤ 0 := by simpa using settles.whole
  rw [bare_append, foldl_deepen_eq_zero whole settles.ends]

/-- The row has no word `in`. -/
def Free (row : List Token) : Prop :=
  ∀ token ∈ row, token.isKeyword "in" = false

instance : DecidablePred Free := fun row =>
  inferInstanceAs (Decidable (∀ token ∈ row, token.isKeyword "in" = false))

theorem free_append {first second : List Token} :
    Free (first ++ second) ↔ Free first ∧ Free second :=
  List.forall_mem_append

/-- Outside of brackets the row has no word `in`. No such word follows at all behind the start of a
function or a class, behind a square bracket that stands directly behind the mark of an optional
member, and behind one that stands anywhere behind the word `new`. In a narrow row none follows
behind any square bracket. -/
structure Clear (narrow : Bool) (row : List Token) : Prop where
  words : ∀ part ∈ bare 0 row, part.1.isKeyword "in" = false
  braces : ∀ part ∈ bare 0 row,
    (part.1.isKeyword "function" || part.1.isKeyword "class") = true → Free part.2
  optional : (bare 0 row).IsChain fun a b =>
    a.1.isPunct "?." = true → b.1.isPunct "[" = true → Free b.2
  constructs : (bare 0 row).Pairwise fun a b =>
    a.1.isKeyword "new" = true → b.1.isPunct "[" = true → Free b.2
  members : narrow = true → ∀ part ∈ bare 0 row, part.1.isPunct "[" = true → Free part.2

theorem Clear.parts {narrow : Bool} {first second : List Token} (settles : Settles 0 first)
    (clear : Clear narrow (first ++ second)) : Clear narrow first ∧ Clear narrow second := by
  obtain ⟨words, braces, optional, constructs, members⟩ := clear
  rw [bare_append_of_settles settles] at words braces optional constructs members
  simp only [List.forall_mem_append, List.forall_mem_map, free_append] at words braces members
  rw [List.pairwise_append, List.pairwise_map] at constructs
  have optional' := (List.isChain_map _).1 optional.left_of_append
  refine ⟨⟨words.1, fun part mem is => (braces.1 part mem is).1, ?_, ?_,
      fun is part mem is' => ((members is).1 part mem is').1⟩,
    ⟨words.2, braces.2, optional.right_of_append, constructs.2.1, fun is => (members is).2⟩⟩
  · exact optional'.imp fun _ _ free is is' => (free_append.1 (free is is')).1
  · exact constructs.1.imp fun free is is' => (free_append.1 (free is is')).1

/-- Where a row may have the word `in`: nowhere, or in brackets that lift the mode. -/
inductive Leeway where
  | none
  | wide
  | narrow

/-- The row has the word `in` only where it may. -/
def Leeway.Allows : Leeway → List Token → Prop
  | .none => Free
  | .wide => Clear false
  | .narrow => Clear true

namespace Leeway.Allows

variable {room : Leeway} {first second row : List Token} {token : Token}

theorem nil : room.Allows [] := by
  have clear {narrow : Bool} : Clear narrow [] :=
    ⟨by simp [bare], by simp [bare], .nil, .nil, by simp [bare]⟩
  cases room
  · exact fun _ mem => nomatch mem
  · exact clear
  · exact clear

theorem parts (settles : Settles 0 first) (allows : room.Allows (first ++ second)) :
    room.Allows first ∧ room.Allows second := by
  cases room
  · exact free_append.1 allows
  · exact Clear.parts settles allows
  · exact Clear.parts settles allows

theorem cases (allows : room.Allows row) : Free row ∨ ∃ narrow, Clear narrow row := by
  cases room
  · exact .inl allows
  · exact .inr ⟨_, allows⟩
  · exact .inr ⟨_, allows⟩

theorem head (allows : room.Allows (token :: row)) : token.isKeyword "in" = false := by
  rcases allows.cases with free | ⟨_, clear⟩
  · exact free token (by simp)
  · exact clear.words (token, row) (by simp [bare])

/-- A row that starts a function or a class has no word `in`. -/
theorem free_of_braces (allows : room.Allows (token :: row))
    (is : (token.isKeyword "function" || token.isKeyword "class") = true) :
    Free (token :: row) := by
  refine List.forall_mem_cons.2 ⟨allows.head, ?_⟩
  rcases allows.cases with free | ⟨_, clear⟩
  · exact (List.forall_mem_cons.1 free).2
  · exact clear.braces (token, row) (by simp [bare]) is

/-- Nor has one behind the square bracket of an optional member. -/
theorem free_of_optional {mark bracket : Token} (allows : room.Allows (mark :: bracket :: row))
    (is : mark.isPunct "?." = true) (is' : bracket.isPunct "[" = true) : Free row := by
  have level : mark.deepen 0 = 0 := by
    have := deepen_le mark 0
    rw [turn_of_isPunct is] at this
    omega
  rcases allows.cases with free | ⟨_, clear⟩
  · exact fun token mem => free token (by simp [mem])
  · have chain := clear.optional
    simp only [bare, level, if_true, List.isChain_cons_cons] at chain
    exact chain.1 is is'

/-- Behind the word `new` a row is narrow. -/
theorem narrowed (allows : room.Allows (token :: row)) (word : token.isKeyword "new" = true) :
    Leeway.none.Allows row ∨ Leeway.narrow.Allows row := by
  have level : token.deepen 0 = 0 := by
    have shut := turn_le_zero_of_isKeyword word
    have := deepen_le token 0
    omega
  rcases allows.cases with free | ⟨_, words, braces, optional, constructs, _⟩
  · exact .inl (List.forall_mem_cons.1 free).2
  · simp only [bare, level, if_true, List.forall_mem_cons, List.pairwise_cons]
      at words braces optional constructs
    exact .inr ⟨words.2, braces.2, optional.tail, constructs.2,
      fun _ part mem => constructs.1 part mem word⟩

end Leeway.Allows

namespace State

variable {room : Leeway}

/-- What has been read between the two states has the word `in` only where it may. -/
def Clear (room : Leeway) (s s' : State) : Prop :=
  ∃ read, s.rest = read ++ s'.rest ∧ room.Allows read

theorem Clear.parts (clear : s.Clear room s'') (first : s.Nets 0 s')
    (second : s''.rest <:+ s'.rest) : s.Clear room s' ∧ s'.Clear room s'' := by
  obtain ⟨read, split, allows⟩ := clear
  obtain ⟨later, rest⟩ := second
  rcases first with ended | ⟨earlier, split', settles⟩
  · rw [ended, List.append_eq_nil_iff] at rest
    refine ⟨⟨read, by rw [split, rest.2, ended], allows⟩, [], ?_, .nil⟩
    rw [ended, rest.2]
    rfl
  · rw [split', ← rest, ← List.append_assoc] at split
    obtain rfl := List.append_cancel_right split
    obtain ⟨allows, allows'⟩ := allows.parts settles
    exact ⟨⟨earlier, split', allows⟩, later, rest.symm, allows'⟩

/-- A row without the word `in` may be cut anywhere. -/
theorem Clear.cut (clear : s.Clear .none s'') (first : s'.rest <:+ s.rest)
    (second : s''.rest <:+ s'.rest) : s.Clear .none s' ∧ s'.Clear .none s'' := by
  obtain ⟨read, split, free⟩ := clear
  obtain ⟨earlier, split'⟩ := first
  obtain ⟨later, rest⟩ := second
  rw [← split', ← rest, ← List.append_assoc] at split
  obtain rfl := List.append_cancel_right split
  obtain ⟨free, free'⟩ := free_append.1 free
  exact ⟨⟨earlier, split'.symm, free⟩, later, rest.symm, free'⟩

theorem rest_eq_cons (live : s.rest ≠ []) : s.rest = s.current :: s.next.rest := by
  obtain ⟨rest, _⟩ := s
  cases rest with
  | nil => exact absurd rfl live
  | cons token rest => rfl

theorem Clear.of_rest {read : List Token} (clear : s.Clear room s')
    (split : s.rest = read ++ s'.rest) : room.Allows read := by
  obtain ⟨_, split', allows⟩ := clear
  rwa [List.append_cancel_right (split.symm.trans split')]

/-- The token that is taken first belongs to what has been read. -/
theorem Clear.cons (clear : s.Clear room s') (live : s.rest ≠ [])
    (behind : s'.rest <:+ s.next.rest) :
    ∃ later, s.next.rest = later ++ s'.rest ∧ room.Allows (s.current :: later) := by
  obtain ⟨later, rest⟩ := behind
  refine ⟨later, rest.symm, clear.of_rest ?_⟩
  rw [rest_eq_cons live, ← rest, List.cons_append]

/-- What starts a function or a class is read without the word `in`. -/
theorem Clear.of_braces (clear : s.Clear room s') (live : s.rest ≠ [])
    (behind : s'.rest <:+ s.next.rest)
    (is : (s.current.isKeyword "function" || s.current.isKeyword "class") = true) :
    s.Clear .none s' := by
  obtain ⟨later, rest, allows⟩ := clear.cons live behind
  exact ⟨s.current :: later, by rw [rest_eq_cons live, rest]; rfl, allows.free_of_braces is⟩

end State

/-! ## Parses that the mode does not reach -/

/-- The parse does the same in each mode. -/
class Neutral (parse : Parse α) : Prop where
  neutral : ∀ {s a s'}, parse s = .ok a s' → ∀ noIn,
    parse (s.inMode noIn) = .ok a (s'.inMode noIn) := by exact fun run _ => by cases run; rfl

variable {x y parse : Parse α}

namespace Neutral

instance unfolds [unfolds : Unfolds x y] [neutral : Neutral y] : Neutral x :=
  unfolds.eq ▸ neutral

instance pure (a : α) : Neutral (Pure.pure a : Parse α) where

instance bind {x : Parse β} {f : β → Parse α} [first : Neutral x] [further : ∀ b, Neutral (f b)] :
    Neutral (x >>= f) where
  neutral run noIn := by
    obtain ⟨b, _, run, run'⟩ := bind_eq_ok.1 run
    exact bind_eq_ok.2 ⟨b, _, first.neutral run noIn, (further b).neutral run' noIn⟩

instance ite {c : Prop} [Decidable c] [Neutral x] [Neutral y] :
    Neutral (if c then x else y) := by split <;> assumption

instance expected (what : String) : Neutral (Grammar.expected what : Parse α) :=
  ⟨fun run => absurd run expected_ne_ok⟩

instance unexpected : Neutral (Grammar.unexpected : Parse α) :=
  ⟨fun run => absurd run unexpected_ne_ok⟩

instance current : Neutral Grammar.current where

instance peek (count : Nat) : Neutral (Grammar.peek count) where

instance atPunct (text : String) : Neutral (Grammar.atPunct text) where

instance atKeyword (text : String) : Neutral (Grammar.atKeyword text) where

instance atName : Neutral Grammar.atName where

instance atEnd : Neutral Grammar.atEnd where

instance bump : Neutral Grammar.bump where
  neutral run noIn := by
    obtain ⟨rfl, rfl⟩ := bump_eq_ok.1 run
    exact bump_eq_ok.2 ⟨rfl, State.next_inMode ..⟩

instance pushExpr {span : Span} {build : Mark → Expr Mark} :
    Neutral (Grammar.pushExpr span build) where

instance pushStmt {span : Span} {build : Mark → Stmt Mark} :
    Neutral (Grammar.pushStmt span build) where

instance finishExpr {start : Nat} {build : Mark → Expr Mark} :
    Neutral (Grammar.finishExpr start build) where

instance finishStmt {start : Nat} {build : Mark → Stmt Mark} :
    Neutral (Grammar.finishStmt start build) where

instance enclose {e : Expr Mark} {outer : Span} : Neutral (Grammar.enclose e outer) where

instance endStatement : Neutral Grammar.endStatement := by
  unfold Grammar.endStatement
  infer_instance

/-- A parse that is given its mode is told nothing of the mode around it. -/
instance withNoIn (mode : Bool) : Neutral (Grammar.withNoIn mode parse) where
  neutral run noIn := by
    obtain ⟨middle, inside, rfl⟩ := withNoIn_eq_ok.1 run
    exact withNoIn_eq_ok.2 ⟨middle, inside, rfl⟩

instance bumpMany (count : Nat) : Neutral (Grammar.bumpMany count) := by
  induction count with
  | zero => exact inferInstanceAs (Neutral (Pure.pure ()))
  | succ count ih =>
    exact inferInstanceAs (Neutral (Grammar.bump >>= fun _ => Grammar.bumpMany count))

instance : Neutral skipClause where
  neutral {s _ _} run noIn := (bumpMany (clauseLength 0 false s.rest)).neutral run noIn

end Neutral

/-- What the parse reads, it also reads in the head of a loop, if it is clear. -/
class Endures (room : Leeway) (parse : Parse α) : Prop where
  endures : ∀ {s a s'}, s.Ends → parse s = .ok a s' → s.Clear room s' →
    parse (s.inMode true) = .ok a (s'.inMode true)

/-- The same in front of some tokens. -/
class EnduresAt (room : Leeway) (c : Token → Bool) (parse : Parse α) : Prop where
  endures : ∀ {s a s'}, s.Ends → c s.current = true → parse s = .ok a s' → s.Clear room s' →
    parse (s.inMode true) = .ok a (s'.inMode true)

/-- What is clear may be cut where the parse ends. -/
class Cuts (room : Leeway) (parse : Parse α) : Prop where
  cuts : ∀ {s a s' s''}, parse s = .ok a s' → s.Clear room s'' → s''.rest <:+ s'.rest →
    s.Clear room s' ∧ s'.Clear room s''

instance {room : Leeway} [nets : Nets 0 parse] : Cuts room parse where
  cuts run clear := clear.parts (nets.nets run)

instance [proceeds : Proceeds parse] : Cuts .none parse where
  cuts run clear := clear.cut (proceeds.proceeds run).suffix

/-- None of the tokens opens a bracket. -/
class Shuts (c : Token → Bool) : Prop where
  shuts : ∀ {token}, c token = true → token.turn ≤ 0

instance {text : String} : Shuts (·.isKeyword text) := ⟨turn_le_zero_of_isKeyword⟩

instance {text : String} [Turns text 0] : Shuts (·.isPunct text) :=
  ⟨fun is => Int.le_of_eq (turn_of_isPunct is)⟩

instance : Shuts (!·.opens) := ⟨fun shut => turn_le_zero_of_not_opens (by simpa using shut)⟩

instance : Shuts isUpdate := ⟨turn_le_zero_of_isUpdate⟩

instance : Shuts fun token => isUpdate token && !token.newlineBefore :=
  ⟨fun is => turn_le_zero_of_isUpdate (Bool.and_eq_true_iff.1 is).1⟩

namespace Endures

variable {room : Leeway} {c : Token → Bool} {text : String}

instance unfolds [unfolds : Unfolds x y] [endures : Endures room y] :
    Endures room x :=
  unfolds.eq ▸ endures

instance of_neutral [neutral : Neutral parse] : Endures room parse where
  endures _ run _ := neutral.neutral run true

instance bind {x : Parse β} {f : β → Parse α} [Proceeds x] [Cuts room x] [first : Endures room x]
    [∀ b, Proceeds (f b)] [further : ∀ b, Endures room (f b)] : Endures room (x >>= f) where
  endures ends run clear := by
    obtain ⟨b, middle, run, run'⟩ := bind_eq_ok.1 run
    have proceeds := Proceeds.proceeds run
    obtain ⟨clear, clear'⟩ := Cuts.cuts run clear (Proceeds.proceeds run').suffix
    exact bind_eq_ok.2 ⟨b, _, first.endures ends run clear,
      (further b).endures (ends.proceeds proceeds) run' clear'⟩

instance ite {c : Prop} [Decidable c] [Endures room x]
    [Endures room y] : Endures room (if c then x else y) := by split <;> assumption

/-- A decision on the state that does not ask for the mode. -/
theorem get {f : State → Parse α} (same : ∀ s, f (s.inMode true) = f s)
    (each : ∀ s, Endures room (f s)) : Endures room (MonadState.get >>= f) where
  endures {s a s'} ends run clear := by
    have run : f s s = .ok a s' := run
    show f (s.inMode true) (s.inMode true) = _
    rw [same]
    exact (each s).endures ends run clear

theorem current {f : Token → Parse α} (each : ∀ token, Endures room (f token)) :
    Endures room (Grammar.current >>= f) where
  endures {s _ _} ends run := (each s.current).endures ends run

instance looked {x y : Token → Parse α} [yes : ∀ token, EnduresAt room c (x token)]
    [no : ∀ token, Endures room (y token)] :
    Endures room (Grammar.current >>= fun token => if c token = true then x token else y token)
    where
  endures {s a s'} ends run clear := by
    have run : (if c s.current = true then x s.current else y s.current) s = .ok a s' := run
    show (if c s.current = true then x s.current else y s.current) (s.inMode true) = _
    split at run
    · next is =>
      rw [if_pos is]
      exact (yes _).endures ends is run clear
    · next not =>
      rw [if_neg not]
      exact (no _).endures ends run clear

instance atPunct [yes : EnduresAt room (·.isPunct text) x]
    [no : Endures room y] :
    Endures room (Grammar.atPunct text >>= fun b => if b = true then x else y) :=
  @looked _ _ _ _ _ (fun _ => yes) fun _ => no

instance atKeyword [yes : EnduresAt room (·.isKeyword text) x]
    [no : Endures room y] :
    Endures room (Grammar.atKeyword text >>= fun b => if b = true then x else y) :=
  @looked _ _ _ _ _ (fun _ => yes) fun _ => no

instance extend {step : α → Parse (Option α)} [∀ value, Steps (step value)]
    [∀ value, Cuts room (step value)] [each : ∀ value, Endures room (step value)] (value : α) :
    Endures room (Grammar.extend step value) where
  endures {s longer s'} ends run clear := by
    replace run := extend_eq_ok.1 run
    refine extend_eq_ok.2 (show extendUpTo step (s.rest.length + 1) value _ = _ from ?_)
    generalize s.rest.length + 1 = limit at run
    induction limit generalizing s value with
    | zero => exact absurd run extendUpTo_zero
    | succ limit ih =>
      rcases extendUpTo_succ.1 run with ⟨stops, same⟩ | ⟨longer, middle, one, more⟩
      · exact extendUpTo_succ.2 (.inl ⟨(each value).endures ends stops clear, same⟩)
      · have steps := Steps.steps one
        obtain ⟨clear, clear'⟩ := Cuts.cuts one clear (Steps.steps more).suffix
        exact extendUpTo_succ.2 (.inr ⟨longer, _, (each value).endures ends one clear,
          ih longer (ends.proceeds steps.proceeds) clear' more⟩)

instance manyUntil {stop : Parse Bool} {item : Parse α} [Steps stop] [Steps item] [Cuts room stop]
    [Cuts room item] [asks : Endures room stop] [each : Endures room item] :
    Endures room (Grammar.manyUntil stop item) where
  endures {s items s'} ends run clear := by
    replace run := manyUntil_eq_ok.1 run
    refine manyUntil_eq_ok.2 (show manyUpTo stop item (s.rest.length + 1) _ = _ from ?_)
    generalize s.rest.length + 1 = limit at run
    induction limit generalizing s items with
    | zero => exact absurd run manyUpTo_zero
    | succ limit ih =>
      rcases manyUpTo_succ.1 run with
        ⟨asked, none⟩ | ⟨before, first, middle, others, asked, one, more, all⟩
      · exact manyUpTo_succ.2 (.inl ⟨asks.endures ends asked clear, none⟩)
      · have steps := Steps.steps asked
        have steps' := Steps.steps one
        have last := (Steps.steps more).suffix
        obtain ⟨clear, clear'⟩ := Cuts.cuts asked clear (last.trans steps'.suffix)
        obtain ⟨clear', clear''⟩ := Cuts.cuts one clear' last
        have ends' := ends.proceeds steps.proceeds
        exact manyUpTo_succ.2 (.inr ⟨_, first, _, others, asks.endures ends asked clear,
          each.endures ends' one clear',
          ih (ends'.proceeds steps'.proceeds) clear'' more, all⟩)

/-- Behind a square bracket, a narrow row has no word `in`. -/
instance eatBracket [Proceeds x] [yes : Endures .none x] [no : Endures .narrow y] :
    Endures .narrow (Grammar.eatPunct "[" >>= fun b => if b = true then x else y) where
  endures {s a s'} ends run clear := by
    obtain ⟨b, _, took, run⟩ := bind_eq_ok.1 run
    refine bind_eq_ok.2 ⟨b, _, Neutral.neutral took true, ?_⟩
    obtain ⟨is, rfl⟩ := eatPunct_eq_ok.1 took
    cases b with
    | false => exact no.endures ends run clear
    | true =>
      have run : x s.next = .ok a s' := run
      obtain ⟨later, rest, clear⟩ :=
        clear.cons (ends.live_of_isPunct is) (Proceeds.proceeds run).suffix
      exact yes.endures (ends.proceeds (State.Steps.next s).proceeds) run
        ⟨later, rest, clear.members rfl (s.current, later) (by simp [bare]) is⟩

/-- Nor has one a row behind the square bracket of an optional member. -/
instance eatOptional {x y z w : Parse α} [called : Neutral x] [Proceeds y]
    [yes : Endures .none y] [named : Neutral z] [no : Endures room w] :
    Endures room (Grammar.eatPunct "?." >>= fun optional => if optional = true then
      (Grammar.atPunct "(" >>= fun call => if call = true then x else
        Grammar.eatPunct "[" >>= fun computed => if computed = true then y else z) else w) where
  endures {s a s'} ends run clear := by
    obtain ⟨optional, _, took, run⟩ := bind_eq_ok.1 run
    refine bind_eq_ok.2 ⟨optional, _, Neutral.neutral took true, ?_⟩
    obtain ⟨is, rfl⟩ := eatPunct_eq_ok.1 took
    cases optional with
    | false => exact no.endures ends run clear
    | true =>
      obtain ⟨call, _, looked, run⟩ := bind_eq_ok.1 run
      refine bind_eq_ok.2 ⟨call, _, Neutral.neutral looked true, ?_⟩
      obtain ⟨_, rfl⟩ := atPunct_eq_ok.1 looked
      cases call with
      | true => exact called.neutral run true
      | false =>
        obtain ⟨computed, _, took, run⟩ := bind_eq_ok.1 run
        refine bind_eq_ok.2 ⟨computed, _, Neutral.neutral took true, ?_⟩
        obtain ⟨is', rfl⟩ := eatPunct_eq_ok.1 took
        cases computed with
        | false => exact named.neutral run true
        | true =>
          have run : y s.next.next = .ok a s' := run
          have is' : s.next.current.isPunct "[" = true := is'
          obtain ⟨later, rest⟩ := (Proceeds.proceeds run).suffix
          have ends' := ends.proceeds (State.Steps.next s).proceeds
          have split : s.rest = s.current :: s.next.current :: later ++ s'.rest := by
            rw [State.rest_eq_cons (ends.live_of_isPunct is),
              State.rest_eq_cons (ends'.live_of_isPunct is'), ← rest]
            rfl
          have free := (clear.of_rest split).free_of_optional is is'
          exact yes.endures (ends'.proceeds (State.Steps.next s.next).proceeds) run
            ⟨later, rest.symm, free⟩

end Endures

namespace EnduresAt

variable {room : Leeway} {c : Token → Bool}

instance unfolds [unfolds : Unfolds x y] [endures : EnduresAt room c y] :
    EnduresAt room c x :=
  unfolds.eq ▸ endures

instance of_endures [endures : Endures room parse] :
    EnduresAt room c parse where
  endures ends _ := endures.endures ends

instance first {x : Parse β} {f : β → Parse α} [shuts : Shuts c] [Proceeds x] [nets : NetsShut x]
    [first : EnduresAt room c x] [∀ b, Proceeds (f b)] [further : ∀ b, Endures room (f b)] :
    EnduresAt room c (x >>= f) where
  endures ends is run clear := by
    obtain ⟨b, middle, run, run'⟩ := bind_eq_ok.1 run
    have proceeds := Proceeds.proceeds run
    obtain ⟨clear, clear'⟩ := clear.parts (nets.nets (shuts.shuts is) run)
      (Proceeds.proceeds run').suffix
    exact bind_eq_ok.2 ⟨b, _, first.endures ends is run clear,
      (further b).endures (ends.proceeds proceeds) run' clear'⟩

instance constructs {f : Token → Parse α} [∀ b, Proceeds (f b)]
    [free : ∀ b, Endures .none (f b)] [narrow : ∀ b, Endures .narrow (f b)] :
    EnduresAt room (·.isKeyword "new") (Grammar.bump >>= f) where
  endures {s a s'} ends word run clear := by
    obtain ⟨_, _, took, run⟩ := bind_eq_ok.1 run
    refine bind_eq_ok.2 ⟨_, _, Neutral.neutral took true, ?_⟩
    obtain ⟨rfl, rfl⟩ := bump_eq_ok.1 took
    have ends' := ends.proceeds (State.Steps.next s).proceeds
    obtain ⟨later, rest, allows⟩ :=
      clear.cons (ends.live_of_isKeyword word) (Proceeds.proceeds run).suffix
    rcases allows.narrowed word with allows | allows
    · exact (free _).endures ends' run ⟨later, rest, allows⟩
    · exact (narrow _).endures ends' run ⟨later, rest, allows⟩

end EnduresAt

/-! ## Productions -/

/-- All productions that are called endure the head of a loop. -/
class Productions.Enduring (p : Productions) : Prop where
  statement : Endures .none p.statement
  assignment : ∀ room, Endures room p.assignment
  binary : ∀ room least, Endures room (p.binary least)
  unary : ∀ room, Endures room p.unary
  chain : Endures .none p.chain
  construct : ∀ room, EnduresAt room (·.isKeyword "new") p.construct

namespace Productions.Enduring

attribute [instance] statement assignment binary unary chain construct

end Productions.Enduring

section Productions

variable [p.Stepping] [p.Netting] [p.Enduring] {e : Expr Mark} {start : Nat}
  {room : Leeway}

/-! ### Functions and classes -/

instance : Endures .none skipModifiers := by
  have step : Endures .none (do
      if (← get).modifierAhead then
        let _ ← bump
        return some ()
      else return none : Parse (Option Unit)) := .get (fun _ => rfl) fun _ => inferInstance
  unfold skipModifiers
  infer_instance

instance : Endures .none (classKey p) := by
  unfold classKey
  refine .current fun token => ?_
  split <;> infer_instance

/-- What starts a function or a class is read without the word `in`. -/
theorem EnduresAt.of_braces {parse : Parse α} {text : String}
    (is : text = "function" ∨ text = "class") [Proceeds parse] [takes : Takes 1 parse]
    [endures : Endures .none parse] : EnduresAt room (·.isKeyword text) parse where
  endures {s _ s'} ends word run clear := by
    have live := ends.live_of_isKeyword word
    have shorter := takes.takes ends run
    have suffix := (Proceeds.proceeds run).suffix
    rw [State.rest_eq_cons live] at suffix shorter
    have behind : s'.rest <:+ s.next.rest := by
      rcases List.suffix_cons_iff.1 suffix with same | behind
      · rw [same] at shorter
        omega
      · exact behind
    refine endures.endures ends run (clear.of_braces live behind ?_)
    rcases is with rfl | rfl <;> simp [word]

instance : EnduresAt room (·.isKeyword "function") (functionExpression p start) :=
  .of_braces (.inl rfl)

instance :
    EnduresAt room (·.isKeyword "class") (classBody p >>= fun _ => finishExpr start .hidden) :=
  .of_braces (.inr rfl)

instance : Endures room (primary p) where
  endures {s e s'} ends run clear := by
    have taken := State.Steps.next s
    refine primary_eq_ok.2 ?_
    rcases primary_eq_ok.1 run with ⟨ahead, run⟩ | ⟨ahead, build, found, rfl, rfl⟩ |
      ⟨ahead, none, run⟩
    · have words : s.current.kind = .identifier ∧ s.next.current.isKeyword "function" = true := by
        rw [State.current_next]
        simp_all [State.asyncFunctionAhead, Token.isIdentifier]
      have shut := Nets.turn_le_zero_of_kind words.1 (by decide)
      have behind := clear.parts (State.nets_next shut) (Proceeds.proceeds run).suffix
      refine .inl ⟨ahead, ?_⟩
      rw [State.next_inMode]
      exact EnduresAt.endures (c := (·.isKeyword "function")) (ends.proceeds taken.proceeds) words.2
        run behind.2
    · exact .inr (.inl ⟨ahead, build, found, by rw [State.next_inMode]; rfl,
        by rw [State.next_inMode]; rfl⟩)
    · refine .inr (.inr ⟨ahead, none, ?_⟩)
      show compound p s.current (s.inMode true) = _
      unfold compound at run ⊢
      split
      · next is =>
        rw [if_pos is] at run
        exact EnduresAt.endures (c := (·.isKeyword "function")) ends is run clear
      next noFunction =>
      rw [if_neg noFunction] at run
      split
      · next is =>
        rw [if_pos is] at run
        exact EnduresAt.endures (c := (·.isKeyword "class")) ends is run clear
      next noClass =>
      rw [if_neg noClass] at run
      exact Neutral.neutral run true

/-! ### Operators -/

instance : Endures room (unary p) where
  endures {s e s'} ends run clear := by
    replace run := get_bind.symm.trans run
    refine bind_eq_ok.2 ⟨_, _, get_eq_ok.2 ⟨rfl, rfl⟩, ?_⟩
    have same : (s.inMode true).unaryAhead? = s.unaryAhead? := rfl
    rw [same]
    cases ahead : s.unaryAhead? with
    | some op =>
      simp only [ahead] at run
      have shut : (!s.current.opens) = true := by simp [not_opens_of_unaryAhead? ahead]
      exact EnduresAt.endures (c := (!·.opens)) ends shut run clear
    | none =>
      simp only [ahead] at run ⊢
      split at run
      · next update =>
        rw [if_pos (show isUpdate (s.inMode true).current = true from update)]
        exact EnduresAt.endures ends update run clear
      · next noUpdate =>
        rw [if_neg (show ¬ isUpdate (s.inMode true).current = true from noUpdate)]
        exact Endures.endures ends run clear

/-- The mode matters to the word `in` alone. -/
theorem Infix.ofToken?_eq_some_iff {token : Token} {op : Infix} {noIn : Bool} :
    Infix.ofToken? noIn token = some op ↔
      Infix.ofToken? true token = some op ∨
        (token.isKeyword "in" = true ∧ noIn = false ∧ op = .binary .membership) := by
  unfold Infix.ofToken?
  split
  · next kind => simp [Token.isKeyword, kind]
  · next kind =>
    by_cases word : token.text = "in"
    · cases noIn <;> simp [Token.isKeyword, kind, word, eq_comm]
    · simp [Token.isKeyword, word]
  · next other =>
    have noWord : token.kind ≠ .keyword := other
    simp [Token.isKeyword, noWord]

/-- Where the word `in` is an operator, it is taken, and what has been read is not clear. -/
instance {least : Nat} : Endures room (binaryLink p least e) where
  endures {s longer s'} ends run clear := by
    cases longer with
    | none =>
      obtain ⟨rfl, weak⟩ := binaryLink_eq_none.1 run
      exact binaryLink_eq_none.2 ⟨rfl, fun op found =>
        weak op (Infix.ofToken?_eq_some_iff.2 (.inl found))⟩
    | some e =>
      obtain ⟨op, right, middle, sign, strong, operand, rfl, rfl⟩ := binaryLink_eq_some.1 run
      have behind := (Steps.steps operand).suffix
      have shut := turn_le_zero_of_not_opens (not_opens_of_ofToken? sign)
      refine binaryLink_eq_some.2 ⟨op, right, middle.inMode true, ?_, strong, ?_, rfl, rfl⟩
      · rcases Infix.ofToken?_eq_some_iff.1 sign with sign | ⟨word, _⟩
        · exact sign
        · obtain ⟨_, _, clear⟩ := clear.cons (ends.live_of_isKeyword word) behind
          exact absurd word (by simp [clear.head])
      · rw [State.next_inMode]
        exact Endures.endures (ends.proceeds (State.Steps.next s).proceeds) operand
          (clear.parts (State.nets_next shut) behind).2

instance : Shuts fun token : Token =>
    token.kind = .punctuator && assignmentOperators.contains token.text where
  shuts {token} is := by
    refine turn_le_zero_of_not_opens (Bool.eq_false_iff.2 fun opens => ?_)
    have none : ∀ text ∈ ["(", "[", "\x7b"], assignmentOperators.contains text = false := by decide
    rw [none _ (text_of_opens opens).2, Bool.and_false] at is
    cases is

instance : Endures room (assignment p) := by
  unfold assignment
  refine .get (fun _ => rfl) fun s => ?_
  infer_instance

/-! ### Statements -/

instance {head : Option (ForHead Mark)} : Endures .none (forInit head) := by
  unfold forInit
  split <;> infer_instance

instance {head : Option (ForHead Mark)} {token : Token} :
    Endures .none (forRest p start head token) := by
  unfold forRest
  split <;> infer_instance

instance : Endures .none (exportClause p) := by
  unfold exportClause
  dsimp only
  refine @Endures.bind _ _ _ _ _ _ _ _ _ fun word => .get (fun _ => rfl) fun state => ?_
  refine @Endures.ite _ _ _ _ _ _ ?_ inferInstance
  exact @Endures.bind _ _ _ _ _ _ _ _ _ fun _ => .get (fun _ => rfl) fun state => inferInstance

theorem endures_of_statementAhead? {production : Parse (Stmt Mark)}
    (found : statementAhead? p s = some production) : Endures .none production := by
  apply of_statementAhead? found <;> intros <;> and_intros <;> infer_instance

instance : Endures .none (statement p) := by
  refine .get (fun _ => rfl) fun state => ?_
  cases found : statementAhead? p state with
  | some production => exact endures_of_statementAhead? found
  | none => exact inferInstanceAs (Endures .none (expressionStatement p))

end Productions

instance Productions.upTo_enduring (depth : Nat) : (Productions.upTo depth).Enduring := by
  induction depth <;> constructor <;> dsimp only [Productions.upTo, Productions.none] <;>
    infer_instance

/-- **Most brackets lift the mode of a loop's head.** Let the tokens of an expression have the word
`in` only inside of brackets, and let no such word follow one of these, where it stands outside of
brackets: the word that starts a function or a class, a square bracket directly behind the mark of
an optional member, and one behind the word `new`. Then the expression is read alike in the head of
a loop: it ends at the same token, and it is the same tree with the same tables. -/
theorem expression_in_head (depth : Nat) {s s' : State} {e : Expr Mark} {read : List Token}
    (ends : s.Ends) (run : expression (Productions.upTo depth) s = .ok e s')
    (split : s.rest = read ++ s'.rest)
    (inside : ∀ part ∈ bare 0 read, part.1.isKeyword "in" = false)
    (braces : ∀ part ∈ bare 0 read,
      (part.1.isKeyword "function" || part.1.isKeyword "class") = true → Free part.2)
    (optional : (bare 0 read).IsChain fun a b =>
      a.1.isPunct "?." = true → b.1.isPunct "[" = true → Free b.2)
    (constructs : (bare 0 read).Pairwise fun a b =>
      a.1.isKeyword "new" = true → b.1.isPunct "[" = true → Free b.2) :
    expression (Productions.upTo depth) (s.inMode true) = .ok e (s'.inMode true) := by
  have clear : Clear false read := ⟨inside, braces, optional, constructs, nofun⟩
  have endures : Endures .wide (expression (Productions.upTo depth)) := inferInstance
  exact endures.endures ends run ⟨read, split, clear⟩

/-- Has the row been read to its end? -/
def readsAll : EStateM.Result ParseError State α → Bool
  | .ok _ s => s.rest.isEmpty
  | .error .. => false

theorem exists_of_readsAll {result : EStateM.Result ParseError State α}
    (reads : readsAll result = true) : ∃ a s', result = .ok a s' ∧ s'.rest = [] := by
  cases result with
  | ok a s' => exact ⟨a, s', rfl, List.isEmpty_iff.1 reads⟩
  | error => cases reads

/-- Brackets that lift the mode, and brackets of the other kinds behind them. -/
theorem expression_in_head_lifted :
    ∃ row, TokenRow.ofString
        "x[a in b](\x7bc:d in e\x7d),new y[0],z?.[1],function()\x7b\x7d" = .ok row ∧
      ∃ e s', expression (Productions.upTo 30) (State.ofRow row) = .ok e s' ∧ s'.rest = [] ∧
        expression (Productions.upTo 30) ((State.ofRow row).inMode true) =
          .ok e (s'.inMode true) := by
  have checked : (TokenRow.ofString
      "x[a in b](\x7bc:d in e\x7d),new y[0],z?.[1],function()\x7b\x7d").toOption.any
      (fun row : TokenRow => decide (row.stop.kind = .eof ∧
        readsAll (expression (Productions.upTo 30) (State.ofRow row)) = true ∧
        (∀ part ∈ bare 0 row.tokens, part.1.isKeyword "in" = false) ∧
        (∀ part ∈ bare 0 row.tokens,
          (part.1.isKeyword "function" || part.1.isKeyword "class") = true → Free part.2) ∧
        ((bare 0 row.tokens).IsChain fun a b =>
          a.1.isPunct "?." = true → b.1.isPunct "[" = true → Free b.2) ∧
        (bare 0 row.tokens).Pairwise fun a b =>
          a.1.isKeyword "new" = true → b.1.isPunct "[" = true → Free b.2)) = true := by
    decide +kernel
  obtain ⟨row, found, holds⟩ := exists_ok_of_any checked
  obtain ⟨ends, reads, inside, braces, optional, constructs⟩ := of_decide_eq_true holds
  obtain ⟨e, s', run, rest⟩ := exists_of_readsAll reads
  have split : (State.ofRow row).rest = row.tokens ++ s'.rest := by simp [rest, State.ofRow]
  exact ⟨row, found, e, s', run, rest,
    expression_in_head 30 ends run split inside braces optional constructs⟩

/-- Each of the other brackets keeps the mode: with the word `in` in it, the expression is read to
the end outside of a loop's head. It is not read to the end in one, nor is a loop with it. -/
theorem expression_not_in_head :
    ["x?.[a in b]", "new x[a in b]", "function()\x7breturn a in b\x7d",
        "class\x7by=a in b\x7d"].Forall fun text =>
      ∃ row loop, TokenRow.ofString text = .ok row ∧
        TokenRow.ofString ("for(" ++ text ++ ";;);") = .ok loop ∧
        (∀ part ∈ bare 0 row.tokens, part.1.isKeyword "in" = false) ∧
        readsAll (readExpression (State.ofRow row)) = true ∧
        readsAll (readExpression ((State.ofRow row).inMode true)) = false ∧
        readsAll (readProgram (State.ofRow loop)) = false := by
  have checked : ∀ text ∈ ["x?.[a in b]", "new x[a in b]", "function()\x7breturn a in b\x7d",
      "class\x7by=a in b\x7d"], (TokenRow.ofString text).toOption.any (fun row : TokenRow =>
        (TokenRow.ofString ("for(" ++ text ++ ";;);")).toOption.any fun loop : TokenRow => decide
          ((∀ part ∈ bare 0 row.tokens, part.1.isKeyword "in" = false) ∧
          readsAll (readExpression (State.ofRow row)) = true ∧
          readsAll (readExpression ((State.ofRow row).inMode true)) = false ∧
          readsAll (readProgram (State.ofRow loop)) = false)) = true := by
    decide +kernel
  refine List.forall_iff_forall_mem.2 fun text mem => ?_
  obtain ⟨row, found, others⟩ := (Option.any_eq_true ..).1 (checked text mem)
  obtain ⟨loop, found', holds⟩ := exists_ok_of_any others
  exact ⟨row, loop, eq_ok_of_toOption found, found', of_decide_eq_true holds⟩

end Grammar

end TidyScript
