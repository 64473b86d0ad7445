import TidyScript.Proofs.Grammar.Taking

/-!
# Productions close the brackets they open

A production takes no more opening than closing brackets. The search for an arrow behind a
parenthesis counts brackets too, so it does not go past the parenthesis where the parameters of a
function end.

Import and export clauses are passed over to a place where no bracket is open, or to the end of the
row. This is why the end of the row stays a possibility in all of the following.
-/

namespace TidyScript

/-- A bracket that opens counts one, and one that closes takes one away. -/
def Token.turn (token : Token) : Int :=
  if token.opens then 1 else if token.closes then -1 else 0

namespace Grammar

-- productions are long rows of steps
set_option synthInstance.maxSize 1000000000

variable {α β : Type} {p : Productions} {s s' : State} {token : Token}

/-- The brackets that a row leaves open, less those that it closes. -/
def net : List Token → Int
  | [] => 0
  | token :: rest => token.turn + net rest

theorem net_append (first second : List Token) :
    net (first ++ second) = net first + net second := by
  induction first with
  | nil => simp [net]
  | cons token rest ih => rw [List.cons_append, net, net, ih, Int.add_assoc]

/-- The row leaves no more brackets open than so many, and no end of it more than the row may. A
bracket that is opened on the way is therefore closed on the way. -/
structure Settles (bound : Int) (row : List Token) : Prop where
  whole : net row ≤ bound
  ends : ∀ part, part <:+ row → net part ≤ max bound 0

namespace Settles

theorem nil : Settles 0 [] := by
  refine ⟨Int.le_refl 0, fun part isEnd => ?_⟩
  rw [List.suffix_nil.1 isEnd]
  decide

theorem single {bound : Int} (turn : token.turn ≤ bound) : Settles bound [token] := by
  have whole : net [token] ≤ bound := by simpa [net] using turn
  refine ⟨whole, fun part isEnd => ?_⟩
  rcases List.suffix_cons_iff.1 isEnd with rfl | none
  · exact Int.le_trans whole (Int.le_max_left ..)
  · rw [List.suffix_nil.1 none]
    exact Int.le_max_right ..

/-- In front of a row, a token that it makes up for. -/
theorem cons {row : List Token} {inner outer : Nat}
    (settles : Settles (-inner) row) (turn : token.turn + outer ≤ inner) :
    Settles (-outer) (token :: row) := by
  have whole : net (token :: row) ≤ -outer := by
    have := settles.whole
    rw [net]
    omega
  refine ⟨whole, fun part isEnd => ?_⟩
  rcases List.suffix_cons_iff.1 isEnd with rfl | further
  · omega
  · have := settles.ends part further
    omega

/-- Behind a row, another that leaves nothing open. -/
theorem append {first second : List Token} {k l : Int} (settles : Settles k first)
    (settles' : Settles l second) (shut : l ≤ 0) : Settles (k + l) (first ++ second) := by
  refine ⟨?_, fun part isEnd => ?_⟩
  · rw [net_append]
    exact Int.add_le_add settles.whole settles'.whole
  · obtain ⟨front, split⟩ := isEnd
    rcases List.append_eq_append_iff.1 split with ⟨middle, rfl, rfl⟩ | ⟨middle, rfl, rfl⟩
    · have := settles.ends middle (List.suffix_append ..)
      have := settles'.whole
      rw [net_append]
      omega
    · have := settles'.ends part (List.suffix_append ..)
      omega

end Settles

namespace State

/-- Between the two states, no more brackets than so many are left open, unless the row has
ended. -/
def Nets (bound : Int) (s s' : State) : Prop :=
  s'.rest = [] ∨ ∃ read, s.rest = read ++ s'.rest ∧ Settles bound read

theorem Nets.trans {s'' : State} {k l : Int} (first : s.Nets k s') (second : s'.Nets l s'')
    (shut : l ≤ 0) : s.Nets (k + l) s'' := by
  rcases second with ended | ⟨read', split', settles'⟩
  · exact .inl ended
  rcases first with ended | ⟨read, split, settles⟩
  · rw [ended] at split'
    exact .inl (List.append_eq_nil_iff.1 split'.symm).2
  · exact .inr ⟨read ++ read', by rw [split, split', List.append_assoc],
      settles.append settles' shut⟩

theorem Nets.refl (s : State) : s.Nets 0 s :=
  .inr ⟨[], rfl, .nil⟩

theorem current_next (s : State) : s.next.current = s.peek 1 := by
  obtain ⟨rest, _⟩ := s
  cases rest <;> rfl

/-- Taking a token counts the token. -/
theorem nets_next {bound : Int} (turn : s.current.turn ≤ bound) : s.Nets bound s.next := by
  obtain ⟨rest, _⟩ := s
  cases rest with
  | nil => exact .inl rfl
  | cons token rest => exact .inr ⟨[token], rfl, .single turn⟩

end State

theorem turn_le_one (token : Token) : token.turn ≤ 1 := by
  unfold Token.turn
  split
  · exact Int.le_refl 1
  · split <;> decide

/-- Only punctuators are brackets. -/
theorem turn_of_kind (kind : token.kind ≠ .punctuator) : token.turn = 0 := by
  simp [Token.turn, Token.opens, Token.closes, Token.isPunct, kind]

theorem turn_le_zero_of_not_opens (not : token.opens = false) : token.turn ≤ 0 := by
  simp only [Token.turn, not, Bool.false_eq_true, if_false]
  split <;> decide

theorem text_of_opens (opens : token.opens = true) :
    token.kind = .punctuator ∧ token.text ∈ ["(", "[", "\x7b"] := by
  simp only [Token.opens, Token.isPunct, Bool.or_eq_true, Bool.and_eq_true,
    decide_eq_true_eq] at opens
  rcases opens with (⟨kind, text⟩ | ⟨kind, text⟩) | ⟨kind, text⟩ <;> simp [kind, text]

/-- What a punctuator with the text counts. -/
class Turns (text : String) (turn : outParam Int) : Prop where
  turn_eq : (Token.mk .punctuator text ⟨0, 0⟩ false).turn = turn := by decide

theorem turn_of_isPunct {text : String} {turn : Int} [turns : Turns text turn]
    (is : token.isPunct text = true) : token.turn = turn := by
  obtain ⟨kind, same⟩ : token.kind = .punctuator ∧ token.text = text := by
    simpa [Token.isPunct] using is
  rw [← turns.turn_eq]
  simp [Token.turn, Token.opens, Token.closes, Token.isPunct, kind, same]

theorem State.nets_of_isPunct {text : String} {turn : Int} [Turns text turn]
    (is : s.current.isPunct text = true) : s.Nets turn s.next :=
  nets_next (Int.le_of_eq (turn_of_isPunct is))

theorem turn_le_zero_of_isKeyword {text : String}
    (is : token.isKeyword text = true) : token.turn ≤ 0 :=
  Int.le_of_eq (turn_of_kind (by simp_all [Token.isKeyword]))

section Turns

instance : Turns "(" 1 where
instance : Turns "[" 1 where
instance : Turns "\x7b" 1 where
instance : Turns ")" (-1) where
instance : Turns "]" (-1) where
instance : Turns "\x7d" (-1) where
instance : Turns "," 0 where
instance : Turns ";" 0 where
instance : Turns ":" 0 where
instance : Turns "." 0 where
instance : Turns "..." 0 where
instance : Turns "?" 0 where
instance : Turns "?." 0 where
instance : Turns "*" 0 where
instance : Turns "=" 0 where
instance : Turns "=>" 0 where
instance : Turns "++" 0 where
instance : Turns "--" 0 where

end Turns

/-- The parse leaves no more brackets open than so many. -/
abbrev Nets (bound : Int) (parse : Parse α) : Prop :=
  Along (State.Nets bound) parse

theorem Nets.nets {bound : Int} {parse : Parse α} [nets : Nets bound parse] {a : α}
    (run : parse s = .ok a s') : s.Nets bound s' :=
  nets.along run

instance : Course (State.Nets 0) :=
  ⟨State.Nets.refl, fun first second => first.trans second (Int.le_refl 0)⟩

theorem State.Nets.level {s'' : State} {parse : Parse α} {a : α} [Grammar.Nets 0 parse]
    (first : s.Nets 0 s') (run : parse s' = .ok a s'') : s.Nets 0 s'' :=
  Course.trans first (Nets.nets run)

/-- In front of a token that is no opening bracket, the parse leaves no bracket open. -/
class NetsShut (parse : Parse α) : Prop where
  nets : ∀ {s : State} {a : α} {s' : State}, s.current.turn ≤ 0 → parse s = .ok a s' → s.Nets 0 s'

namespace Nets

variable {bound turn : Int} {text : String}

theorem of_stays {parse : Parse α} (stays : ∀ {s a s'}, parse s = .ok a s' → s'.rest = s.rest) :
    Nets 0 parse where
  along run := .inr ⟨[], (stays run).symm, .nil⟩

instance pushExpr {span : Span} {build : Mark → Expr Mark} : Nets 0 (Grammar.pushExpr span build) :=
  of_stays fun run => by cases run; rfl

instance pushStmt {span : Span} {build : Mark → Stmt Mark} : Nets 0 (Grammar.pushStmt span build) :=
  of_stays fun run => by cases run; rfl

instance finishExpr {start : Nat} {build : Mark → Expr Mark} :
    Nets 0 (Grammar.finishExpr start build) :=
  of_stays fun run => by cases run; rfl

instance finishStmt {start : Nat} {build : Mark → Stmt Mark} :
    Nets 0 (Grammar.finishStmt start build) :=
  of_stays fun run => by cases run; rfl

instance enclose {e : Expr Mark} {outer : Span} : Nets 0 (Grammar.enclose e outer) :=
  of_stays fun run => by cases run; rfl

instance bump : Nets 1 Grammar.bump where
  along run := (bump_eq_ok.1 run).2 ▸ State.nets_next (turn_le_one _)

instance expectPunct [Turns text turn] : Nets turn (Grammar.expectPunct text) where
  along run := by
    obtain ⟨is, _, rfl⟩ := expectPunct_eq_ok.1 run
    exact State.nets_of_isPunct is

instance expectKeyword : Nets 0 (Grammar.expectKeyword text) where
  along run := by
    obtain ⟨is, _, rfl⟩ := expectKeyword_eq_ok.1 run
    exact State.nets_next (turn_le_zero_of_isKeyword is)

instance eatPunct [Turns text 0] : Nets 0 (Grammar.eatPunct text) where
  along {s _ _} run := by
    obtain ⟨rfl, rfl⟩ := eatPunct_eq_ok.1 run
    split
    · next is => exact State.nets_of_isPunct is
    · exact .refl s

instance endStatement : Nets 0 Grammar.endStatement where
  along {s _ _} run := by
    rcases endStatement_eq_ok.1 run with ⟨is, rfl⟩ | ⟨_, _, rfl⟩
    · exact State.nets_of_isPunct is
    · exact .refl s

/-! ### Steps in a row -/

section

variable {parse : Parse β} {f : β → Parse α}

theorem bind {k l : Int} [first : Nets k parse] [last : ∀ b, Nets l (f b)] (shut : l ≤ 0)
    (sum : k + l = bound) : Nets bound (parse >>= f) where
  along run := by
    obtain ⟨b, _, run, run'⟩ := bind_eq_ok.1 run
    exact sum ▸ (first.along run).trans ((last b).along run') shut

/-- What is opened first is closed behind it. -/
instance enclosed [Nets 1 parse] [∀ b, Nets (-1) (f b)] : Nets 0 (parse >>= f) :=
  bind (k := 1) (l := -1) (by decide) rfl

instance closing [Nets 0 parse] [∀ b, Nets (-1) (f b)] : Nets (-1) (parse >>= f) :=
  bind (k := 0) (l := -1) (by decide) rfl

instance closed [Nets (-1) parse] [∀ b, Nets 0 (f b)] : Nets (-1) (parse >>= f) :=
  bind (k := -1) (l := 0) (by decide) rfl

end

instance withNoIn {parse : Parse α} [inner : Nets bound parse] {noIn : Bool} :
    Nets bound (Grammar.withNoIn noIn parse) where
  along run := by
    obtain ⟨middle, inside, rfl⟩ := withNoIn_eq_ok.1 run
    exact (inner.along inside :)

/-! ### Tests -/

variable {parse parse' : Parse α}

/-- A bracket that is taken if it comes next is closed behind it. -/
instance eatOpening [Turns text 1] [yes : Nets (-1) parse] [no : Nets 0 parse'] :
    Nets 0 (Grammar.eatPunct text >>= fun b => if b = true then parse else parse') where
  along {s _ _} run := by
    obtain ⟨_, _, looked, run⟩ := bind_eq_ok.1 run
    obtain ⟨rfl, rfl⟩ := eatPunct_eq_ok.1 looked
    split at run
    · next is => exact (State.nets_of_isPunct is).trans (yes.along run) (by decide)
    · exact no.along run

/-- What is decided on a state in front of a token that is no opening bracket. -/
theorem test {c : State → Bool} (shut : ∀ {s}, c s = true → s.current.turn ≤ 0)
    {parse parse' : State → Parse α} (yes : ∀ s, NetsShut (parse s)) (no : ∀ s, Nets 0 (parse' s)) :
    Nets 0 (MonadState.get >>= fun s => if c s = true then parse s else parse' s) where
  along {s _ _} run := by
    replace run := get_bind.symm.trans run
    split at run
    · next is => exact (yes s).nets (shut is) run
    · exact (no s).along run

theorem turn_le_zero_of_kind {kind : TokenKind} (is : token.kind = kind)
    (ne : kind ≠ .punctuator) : token.turn ≤ 0 :=
  Int.le_of_eq (turn_of_kind (is ▸ ne))

theorem turn_le_zero_of_isIdentifier (is : token.isIdentifier text = true) : token.turn ≤ 0 := by
  have word : token.kind = .identifier := by simp_all [Token.isIdentifier]
  exact turn_le_zero_of_kind word (by decide)

instance atShut [Turns text 0] [yes : NetsShut parse] [no : Nets 0 parse'] :
    Nets 0 (Grammar.atPunct text >>= fun b => if b = true then parse else parse') :=
  test (c := (·.current.isPunct text)) (fun is => Int.le_of_eq (turn_of_isPunct is))
    (fun _ => yes) fun _ => no

instance atKeyword_ite [yes : NetsShut parse] [no : Nets 0 parse'] :
    Nets 0 (Grammar.atKeyword text >>= fun b => if b = true then parse else parse') :=
  test (c := (·.current.isKeyword text)) turn_le_zero_of_isKeyword (fun _ => yes) fun _ => no

instance atName_ite [yes : NetsShut parse] [no : Nets 0 parse'] :
    Nets 0 (Grammar.atName >>= fun b => if b = true then parse else parse') :=
  test (c := fun s => decide (s.current.kind = .identifier))
    (fun is => turn_le_zero_of_kind (of_decide_eq_true is) (by decide)) (fun _ => yes) fun _ => no

/-- A token that is looked at is taken only if it is no bracket, or closed behind it. -/
theorem looked {f : Token → Parse α}
    (each : ∀ token, (token.turn ≤ 0 ∧ NetsShut (f token)) ∨ Nets 0 (f token)) :
    Nets 0 (Grammar.current >>= f) where
  along {s _ _} run := by
    replace run := current_bind.symm.trans run
    rcases each s.current with ⟨shut, nets⟩ | nets
    · exact nets.nets shut run
    · exact nets.along run

instance atTemplate [yes : NetsShut parse] [no : Nets 0 parse'] :
    Nets 0 (Grammar.current >>= fun token => if token.kind = .template then parse else parse') :=
  .looked fun token => by
    split
    · next is => exact .inl ⟨turn_le_zero_of_kind is (by decide), yes⟩
    · exact .inr no

instance atIdentifier {parse parse' : Token → Parse α} [yes : ∀ token, NetsShut (parse token)]
    [no : ∀ token, Nets 0 (parse' token)] :
    Nets 0 (Grammar.current >>= fun token =>
      if token.isIdentifier text = true then parse token else parse' token) :=
  test (c := (·.current.isIdentifier text)) turn_le_zero_of_isIdentifier (fun _ => yes _)
    fun _ => no _

instance getKeyword {parse parse' : State → Parse α} [yes : ∀ state, NetsShut (parse state)]
    [no : ∀ state, Nets 0 (parse' state)] :
    Nets 0 (MonadState.get >>= fun state : State =>
      if state.current.isKeyword text = true then parse state else parse' state) :=
  test (c := (·.current.isKeyword text)) turn_le_zero_of_isKeyword yes no

/-- A word is looked at, and possibly the token behind it. -/
instance atWord {text : String} {test : Token → Bool} {parse parse' : Token → Parse α}
    [yes : ∀ next, NetsShut (parse next)] [no : ∀ next, Nets 0 (parse' next)] :
    Nets 0 (Grammar.current >>= fun token => Grammar.peek 1 >>= fun next =>
      if (token.isIdentifier text && test next) = true then parse next else parse' next) :=
  Nets.test (c := fun s => s.current.isIdentifier text && test (s.peek 1))
    (fun is => turn_le_zero_of_isIdentifier (Bool.and_eq_true_iff.1 is).1) (fun _ => yes _)
    fun _ => no _

/-! ### Loops -/

/-- Items up to a closing bracket that is taken. -/
instance manyUntil_eatPunct [Turns text (-1)] {item : Parse α} [each : Nets 0 item] :
    Nets (-1) (Grammar.manyUntil (Grammar.eatPunct text) item) where
  along {s items s'} run := by
    replace run := manyUntil_eq_ok.1 run
    generalize s.rest.length + 1 = limit at run
    induction limit generalizing s items with
    | zero => exact absurd run manyUpTo_zero
    | succ limit ih =>
      rcases manyUpTo_succ.1 run with ⟨asked, _⟩ | ⟨_, _, _, _, asked, one, more, _⟩
      · obtain ⟨is, rfl⟩ := eatPunct_eq_ok.1 asked
        exact State.nets_of_isPunct is
      · obtain ⟨_, rfl⟩ := eatPunct_eq_ok.1 asked
        exact (each.along one).trans (ih more) (by decide)

/-- Items are read up to the punctuator that ends them. -/
theorem isPunct_of_manyUntil {item : Parse α} {items : List α}
    (run : Grammar.manyUntil (Grammar.atPunct text) item s = .ok items s') :
    s'.current.isPunct text = true := by
  obtain ⟨_, asked⟩ := exists_stop_of_manyUpTo (manyUntil_eq_ok.1 run)
  obtain ⟨is, rfl⟩ := atPunct_eq_ok.1 asked
  exact is

/-- Items up to a closing bracket that is taken behind them. -/
instance manyUntil_atPunct [Turns text (-1)] {item : Parse β} [each : Nets 0 item]
    {f : List β → Token → Parse α} [last : ∀ items token, Nets 0 (f items token)] :
    Nets (-1) (Grammar.manyUntil (Grammar.atPunct text) item >>= fun items =>
      Grammar.bump >>= f items) where
  along {s a s'} run := by
    obtain ⟨items, behind, loop, run⟩ := bind_eq_ok.1 run
    replace run := bump_bind.symm.trans run
    have items : Nets 0 (Grammar.manyUntil (Grammar.atPunct text) item) := inferInstance
    have closes := State.nets_of_isPunct (isPunct_of_manyUntil loop)
    exact ((items.along loop).trans closes (by decide)).trans ((last _ _).along run) (by decide)

end Nets

namespace NetsShut

instance unfolds {x y : Parse α} [unfolds : Unfolds x y] [nets : NetsShut y] : NetsShut x :=
  unfolds.eq ▸ nets

instance of_nets {parse : Parse α} [nets : Nets 0 parse] : NetsShut parse where
  nets _ run := nets.along run

instance bump : NetsShut Grammar.bump where
  nets shut run := (bump_eq_ok.1 run).2 ▸ State.nets_next shut

instance first {parse : Parse β} {f : β → Parse α} [first : NetsShut parse]
    [last : ∀ b, Nets 0 (f b)] : NetsShut (parse >>= f) where
  nets shut run := by
    obtain ⟨b, _, run, run'⟩ := bind_eq_ok.1 run
    exact (first.nets shut run).trans ((last b).along run') (by decide)

end NetsShut

/-! ## Productions -/

/-- All productions that are called close their brackets. -/
class Productions.Netting (p : Productions) : Prop where
  statement : Nets 0 p.statement
  assignment : Nets 0 p.assignment
  binary : ∀ least, Nets 0 (p.binary least)
  unary : Nets 0 p.unary
  chain : Nets 0 p.chain
  construct : NetsShut p.construct
  primary : Nets 0 p.primary

namespace Productions.Netting

attribute [instance] statement assignment binary unary chain construct primary

end Productions.Netting

section Productions

variable [p.Netting] {e : Expr Mark} {start : Nat}

instance : Nets 0 skipModifiers := by
  unfold skipModifiers
  refine @Along.extend _ _ _ _ (fun _ => ⟨fun {s _ _} run => ?_⟩) ()
  replace run := get_bind.symm.trans run
  split at run
  · next ahead =>
    have shut : s.current.turn ≤ 0 := by
      simp only [State.modifierAhead, Bool.or_eq_true, Bool.and_eq_true, decide_eq_true_eq] at ahead
      rcases ahead with ⟨⟨⟨word, _⟩, _⟩, _⟩ | star
      · exact Nets.turn_le_zero_of_kind word (by decide)
      · exact Int.le_of_eq (turn_of_isPunct star)
    exact NetsShut.nets shut run
  · exact Nets.nets run

instance : Nets 0 (propertyKey p) :=
  .looked fun token => by
    split
    all_goals first
      | (next is => exact .inl ⟨Nets.turn_le_zero_of_kind is (by simp), inferInstance⟩)
      | exact .inr inferInstance

instance : Nets 0 (classKey p) :=
  .looked fun token => by
    split
    all_goals first
      | (next is => exact .inl ⟨Nets.turn_le_zero_of_kind is (by simp), inferInstance⟩)
      | exact .inr inferInstance

instance : Nets 0 (compound p token) := by
  unfold compound
  infer_instance

instance : Nets 0 (primary p) where
  along {s _ _} run := by
    rcases primary_eq_ok.1 run with ⟨ahead, run⟩ | ⟨_, build, found, rfl, rfl⟩ | ⟨_, _, run⟩
    · have word : s.current.kind = .identifier := by
        simp_all [State.asyncFunctionAhead, Token.isIdentifier]
      exact (State.nets_next (Nets.turn_le_zero_of_kind word (by decide))).level run
    · refine State.nets_next (Int.le_of_eq (turn_of_kind fun kind => ?_))
      simp [atom?, kind] at found
    · exact Nets.nets run

instance : Nets 0 propertyName :=
  .looked fun token => by
    split
    · next is =>
      refine .inl ⟨?_, inferInstance⟩
      simp only [Bool.or_eq_true, decide_eq_true_eq] at is
      rcases is with is | is <;> exact Nets.turn_le_zero_of_kind is (by decide)
    · exact .inr inferInstance

theorem turn_le_zero_of_isUpdate (update : isUpdate token = true) : token.turn ≤ 0 := by
  rcases (Bool.or_eq_true ..).mp update with is | is
  · exact Int.le_of_eq (turn_of_isPunct is)
  · exact Int.le_of_eq (turn_of_isPunct is)

theorem not_opens_of_unaryAhead? {op : UnaryOp} (found : s.unaryAhead? = some op) :
    s.current.opens = false := by
  refine Bool.eq_false_iff.2 fun opens => ?_
  obtain ⟨kind, text⟩ := text_of_opens opens
  have none : ∀ text ∈ ["(", "[", "\x7b"], UnaryOp.ofText? text = none := by decide
  simp [State.unaryAhead?, kind, none _ text] at found

theorem not_opens_of_ofToken? {noIn : Bool} {op : Infix}
    (found : Infix.ofToken? noIn token = some op) : token.opens = false := by
  refine Bool.eq_false_iff.2 fun opens => ?_
  obtain ⟨kind, text⟩ := text_of_opens opens
  have none : ∀ text ∈ ["(", "[", "\x7b"],
      LogicalOp.ofText? text = none ∧ BinaryOp.ofText? text = none := by decide
  simp [Infix.ofToken?, kind, none _ text] at found

instance : Nets 0 (unary p) where
  along {s _ _} run := by
    rcases unary_eq_ok.1 run with ⟨op, argument, middle, ahead, operand, _, rfl⟩ |
      ⟨_, update, argument, middle, operand, _, rfl⟩ | ⟨_, _, operand, middle, found, last⟩
    · have sign := turn_le_zero_of_not_opens (not_opens_of_unaryAhead? ahead)
      exact ((State.nets_next sign).level operand :)
    · exact ((State.nets_next (turn_le_zero_of_isUpdate update)).level operand :)
    · have first : s.Nets 0 middle := Nets.nets found
      split at last
      · next update =>
        obtain ⟨_, rfl⟩ := last
        exact first.trans (State.nets_next (turn_le_zero_of_isUpdate (by simp_all))) (by decide)
      · exact last.2 ▸ first

instance {least : Nat} : Nets 0 (binaryLink p least e) where
  along {s longer _} run := by
    cases longer with
    | none => exact (binaryLink_eq_none.1 run).1 ▸ .refl s
    | some e =>
      obtain ⟨op, right, middle, sign, _, operand, _, rfl⟩ := binaryLink_eq_some.1 run
      have sign := turn_le_zero_of_not_opens (not_opens_of_ofToken? sign)
      exact ((State.nets_next sign).level operand :)

instance : Nets 0 (assignment p) := by
  have operator {target : Expr Mark} : Nets 0 (current >>= fun token =>
      if (token.kind = .punctuator && assignmentOperators.contains token.text) = true then
        bump >>= fun _ => p.assignment >>= fun value =>
          finishExpr target.outer.start (.assignment · token.text target value)
      else pure target) := by
    refine .looked fun token => ?_
    split
    · next is =>
      refine .inl ⟨turn_le_zero_of_not_opens ?_, inferInstance⟩
      refine Bool.eq_false_iff.2 fun opens => ?_
      have text := (text_of_opens opens).2
      have none : ∀ text ∈ ["(", "[", "\x7b"], assignmentOperators.contains text = false := by
        decide
      rw [none _ text, Bool.and_false] at is
      cases is
    · exact .inr inferInstance
  unfold assignment
  infer_instance

/-! ## Clauses -/

/-- A clause ends where no bracket is open, or with the row. -/
theorem settles_take_clauseLength (depth : Nat) (started : Bool) (tokens : List Token) :
    tokens.drop (clauseLength depth started tokens) = [] ∨
      Settles (-depth) (tokens.take (clauseLength depth started tokens)) := by
  induction tokens generalizing depth started with
  | nil => exact .inl rfl
  | cons token rest ih =>
    unfold clauseLength
    split
    · next ends =>
      simp only [Bool.and_eq_true, decide_eq_true_eq] at ends
      rw [ends.1.1]
      exact .inr (.single (Int.le_of_eq (turn_of_isPunct ends.2)))
    · split
      · next ends =>
        simp only [Bool.and_eq_true, decide_eq_true_eq] at ends
        rw [ends.1.1]
        exact .inr .nil
      · rw [List.drop_succ_cons, List.take_succ_cons]
        refine (ih _ true).imp id fun settles => ?_
        refine settles.cons ?_
        cases opens : token.opens
        · cases closes : token.closes
          · simp [Token.turn, opens, closes]
          · simp only [Token.turn, opens, closes, Bool.false_eq_true, if_false, if_true]
            omega
        · simp only [Token.turn, opens, if_true]
          omega

theorem rest_of_bumpMany {count : Nat} {u : Unit} (run : bumpMany count s = .ok u s') :
    s'.rest = s.rest.drop count := by
  induction count generalizing s with
  | zero => exact (pure_eq_ok.1 run).2 ▸ rfl
  | succ count ih =>
    replace run := bump_bind.symm.trans run
    rw [ih run]
    obtain ⟨rest, _⟩ := s
    cases rest <;> simp [State.next]

instance : Nets 0 skipClause where
  along {s _ _} run := by
    replace run := get_bind.symm.trans run
    rw [State.Nets, rest_of_bumpMany run]
    refine (settles_take_clauseLength 0 false s.rest).imp id fun settles => ?_
    exact ⟨_, (List.take_append_drop ..).symm, settles⟩

/-! ## Statements -/

instance : Nets 0 (forHead p) where
  along {s _ _} run := by
    replace run := get_bind.symm.trans run
    split at run
    · exact Nets.nets run
    · split at run
      · next ahead =>
        have word : s.current.turn ≤ 0 := by
          simp only [State.declarationAhead, Bool.or_eq_true] at ahead
          rcases ahead with (is | is) | is <;> exact turn_le_zero_of_isKeyword is
        exact NetsShut.nets word run
      · exact Nets.nets run

instance {head : Option (ForHead Mark)} : Nets 0 (forInit head) := by
  unfold forInit
  split <;> infer_instance

instance {head : Option (ForHead Mark)} : Nets (-1) (current >>= forRest p start head) where
  along {s _ _} run := by
    replace run := current_bind.symm.trans run
    cases head with
    | none => exact (inferInstance : Nets (-1) (forTail p start none)).along run
    | some left =>
      have behind {build : Expr Mark → Stmt Mark → Mark → Stmt Mark} {parse : Parse (Expr Mark)}
          [Nets 0 parse] : Nets (-1) (do
            let subject ← parse
            let _ ← expectPunct ")"
            let body ← p.statement
            finishStmt start (build subject body)) := inferInstance
      simp only [forRest] at run
      split at run
      · next is =>
        replace run := bump_bind.symm.trans run
        exact (State.nets_next (turn_le_zero_of_isKeyword is)).trans (behind.along run) (by decide)
      · split at run
        · next is =>
          replace run := bump_bind.symm.trans run
          exact (State.nets_next (Nets.turn_le_zero_of_isIdentifier is)).trans (behind.along run)
            (by decide)
        · exact (inferInstance : Nets (-1) (forTail p start (some left))).along run

instance : NetsShut jump := by
  unfold jump
  dsimp only
  refine @NetsShut.first _ _ _ _ _ fun word => .looked fun token => ?_
  split
  · next is =>
    have label : token.kind = .identifier := by simp_all
    exact .inl ⟨Nets.turn_le_zero_of_kind label (by decide), inferInstance⟩
  · exact .inr inferInstance

theorem labeled_nets {x : Stmt Mark} (shut : s.current.turn ≤ 0)
    (colon : (s.peek 1).isPunct ":" = true) (run : labeled p s = .ok x s') : s.Nets 0 s' := by
  replace run := bump_bind.symm.trans run
  replace run := bump_bind.symm.trans run
  have second : s.next.Nets 0 s.next.next :=
    State.nets_of_isPunct (by rwa [State.current_next])
  exact ((State.nets_next shut).trans second (by decide)).level run

theorem nets_of_statementAhead? {production : Parse (Stmt Mark)} {x : Stmt Mark}
    (found : statementAhead? p s = some production) (run : production s = .ok x s') :
    s.Nets 0 s' := by
  revert run
  refine of_statementAhead? (motive := fun parse => parse s = .ok x s' → _) found Nets.nets
    (fun semicolon => NetsShut.nets (Int.le_of_eq (turn_of_isPunct semicolon)))
    (fun name => NetsShut.nets (Nets.turn_le_zero_of_kind name (by decide)))
    (fun name => labeled_nets (Nets.turn_le_zero_of_kind name (by decide)))
    fun keyword => ?_
  have shut := Nets.turn_le_zero_of_kind keyword (by decide)
  and_intros <;> exact NetsShut.nets shut

instance : Nets 0 (statement p) where
  along {s x s'} run := by
    replace run := get_bind.symm.trans run
    cases found : statementAhead? p s with
    | some production =>
      simp only [found] at run
      exact nets_of_statementAhead? found run
    | none =>
      simp only [found] at run
      exact Nets.nets run

end Productions

/-- Productions of every depth close their brackets. -/
instance Productions.upTo_netting (depth : Nat) : (Productions.upTo depth).Netting := by
  induction depth <;> constructor <;> dsimp only [Productions.upTo, Productions.none] <;>
    infer_instance

end Grammar

end TidyScript
