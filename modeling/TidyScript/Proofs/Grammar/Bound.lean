import TidyScript.Proofs.Grammar.Taking

/-!
# Bounds that are never reached

Productions call each other up to a depth, and loops go round up to a number of times. Both bounds
are set by the tokens that are left, and neither is ever reached: a production calls another only
behind a token that it has taken, and so does every round of a loop. What would happen at the bound
does therefore not matter. To say so, the bottom of the productions and the end of a loop are put
in by hand. `Agrees` compares two parses on rows that are short enough, failures included, and it
is a class, since most productions agree because their parts do.
-/

namespace TidyScript.Grammar

-- productions are long rows of steps
set_option synthInstance.maxSize 1000000000

variable {α β : Type} {s s' : State}

/-! ## Productions over others -/

/-- The productions that call the given ones. -/
def Productions.above (p : Productions) : Productions where
  statement := Grammar.statement p
  assignment := Grammar.assignment p
  binary := Grammar.binary p
  unary := Grammar.unary p
  chain := Grammar.chain p
  construct := Grammar.construct p
  primary := Grammar.primary p

/-- The productions with a given number of nested calls of each other, and any others below
them. -/
def Productions.over (base : Productions) : Nat → Productions
  | 0 => base
  | depth + 1 => (base.over depth).above

theorem Productions.none_over (depth : Nat) : none.over depth = upTo depth := by
  induction depth with
  | zero => rfl
  | succ depth ih => exact congrArg above ih

/-! ## Parses that agree -/

/-- The row has at most so many tokens, or one more if none has been taken yet. -/
structure State.Within (room : Nat) (taken : Bool) (s : State) : Prop where
  ends : s.Ends
  length_le : s.rest.length ≤ if taken then room else room + 1

/-- The two parses do the same on short rows, whether they succeed or fail. -/
class Agrees (room : Nat) (taken : Bool) (x y : Parse α) : Prop where
  agrees : ∀ {s : State}, s.Within room taken → x s = y s

namespace State.Within

variable {room : Nat} {taken : Bool}

theorem proceeds (within : s.Within room taken) (proceeds : s.Proceeds s') :
    s'.Within room taken :=
  ⟨within.ends.proceeds proceeds, proceeds.length_le.trans within.length_le⟩

theorem inMode (within : s.Within room taken) (noIn : Bool) : (s.inMode noIn).Within room taken :=
  ⟨within.ends, within.length_le⟩

/-- Behind a token that has been taken there is one token less. -/
theorem take (within : s.Within room taken) (proceeds : s.Proceeds s')
    (less : s.rest ≠ [] → s'.rest.length + 1 ≤ s.rest.length) : s'.Within room true := by
  refine ⟨within.ends.proceeds proceeds, ?_⟩
  have onward := proceeds.length_le
  have length := within.length_le
  by_cases ended : s.rest = []
  · rw [ended] at onward
    exact onward.trans (Nat.zero_le _)
  · have less := less ended
    have most : s.rest.length ≤ room + 1 := length.trans (by split <;> omega)
    simp only [if_true]
    omega

end State.Within

theorem bind_congr {x y : Parse β} {f g : β → Parse α} (first : x s = y s)
    (further : ∀ {b s'}, x s = .ok b s' → f b s' = g b s') : (x >>= f) s = (y >>= g) s := by
  show EStateM.bind x f s = EStateM.bind y g s
  unfold EStateM.bind
  rw [← first]
  cases run : x s with
  | ok b s' => exact further run
  | error => rfl

namespace Agrees

variable {room : Nat} {taken : Bool} {x y x' y' : Parse α}

instance unfolds [unfolds : Unfolds x y] [unfolds' : Unfolds x' y']
    [agrees : Agrees room taken y y'] : Agrees room taken x x' :=
  unfolds.eq ▸ unfolds'.eq ▸ agrees

instance bind {x y : Parse β} {f g : β → Parse α} [first : Agrees room taken x y] [on : Proceeds x]
    [further : ∀ b, Agrees room taken (f b) (g b)] : Agrees room taken (x >>= f) (y >>= g) where
  agrees within := bind_congr (first.agrees within) fun run =>
    (further _).agrees (within.proceeds (on.proceeds run))

/-- Behind a token, the row is shorter. -/
instance take {x y : Parse β} {f g : β → Parse α} [first : Agrees room taken x y] [on : Proceeds x]
    [takes : TakesLive x] [further : ∀ b, Agrees room true (f b) (g b)] :
    Agrees room taken (x >>= f) (y >>= g) where
  agrees within := bind_congr (first.agrees within) fun run =>
    (further _).agrees (within.take (on.proceeds run) fun live => takes.takes within.ends live run)

instance eatPunct {text : String} [yes : Agrees room true x y]
    [no : Agrees room taken x' y'] :
    Agrees room taken (Grammar.eatPunct text >>= fun b => if b = true then x else x')
      (Grammar.eatPunct text >>= fun b => if b = true then y else y') where
  agrees within := bind_congr rfl fun {b s'} run => by
    have proceeds := (Steps.steps run).proceeds
    obtain ⟨is, rfl⟩ := eatPunct_eq_ok.1 run
    cases b with
    | true =>
      exact yes.agrees (within.take proceeds fun live => (State.length_next live).le)
    | false => exact no.agrees (within.proceeds proceeds)

instance ite {c : Prop} [Decidable c] [Agrees room taken x y] [Agrees room taken x' y'] :
    Agrees room taken (if c then x else x') (if c then y else y') := by split <;> assumption

instance (priority := high) refl : Agrees room taken x x where
  agrees _ := rfl

instance withNoIn [inner : Agrees room taken x y] {noIn : Bool} :
    Agrees room taken (Grammar.withNoIn noIn x) (Grammar.withNoIn noIn y) where
  agrees {s} within :=
    bind_congr rfl fun run => by
      obtain ⟨rfl, rfl⟩ := get_eq_ok.1 run
      exact bind_congr rfl fun run => by
        obtain rfl := modify_eq_ok.1 run
        exact bind_congr (inner.agrees (within.inMode noIn)) fun _ => rfl

section Loops

variable {stop stop' : Parse Bool} {item item' : Parse α} {step step' : α → Parse (Option α)}
  [Agrees room taken stop stop'] [Agrees room taken item item'] [Steps stop] [Steps item]
  [each : ∀ value, Agrees room taken (step value) (step' value)]
  [on : ∀ value, Proceeds (step value)] {bound : Nat} {value : α}

instance manyUpTo :
    Agrees room taken (Grammar.manyUpTo stop item bound) (Grammar.manyUpTo stop' item' bound) := by
  induction bound with
  | zero => exact refl
  | succ bound ih =>
    unfold Grammar.manyUpTo
    infer_instance

instance manyUntil :
    Agrees room taken (Grammar.manyUntil stop item) (Grammar.manyUntil stop' item') := by
  unfold Grammar.manyUntil
  infer_instance

instance extendUpTo :
    Agrees room taken (Grammar.extendUpTo step bound value)
      (Grammar.extendUpTo step' bound value) := by
  induction bound generalizing value with
  | zero => exact refl
  | succ bound ih =>
    unfold Grammar.extendUpTo
    refine @bind _ _ _ _ _ _ _ _ (each value) (on value) fun longer => ?_
    cases longer with
    | none => exact refl
    | some longer => exact ih

instance extend :
    Agrees room taken (Grammar.extend step value) (Grammar.extend step' value) := by
  unfold Grammar.extend
  infer_instance

end Loops

end Agrees

/-! ## Productions -/

/-- The productions that are called agree where a token has been taken. -/
class Productions.Agreeing (room : Nat) (p q : Productions) : Prop where
  statement : Agrees room true p.statement q.statement
  assignment : Agrees room true p.assignment q.assignment
  binary : ∀ least, Agrees room true (p.binary least) (q.binary least)
  unary : Agrees room true p.unary q.unary
  chain : Agrees room true p.chain q.chain
  construct : Agrees room true p.construct q.construct
  primary : Agrees room true p.primary q.primary

namespace Productions.Agreeing

attribute [instance] statement assignment binary unary chain construct primary

end Productions.Agreeing

section Productions

variable {room : Nat} {taken : Bool} {p q : Productions} [p.Stepping] [p.Taking]
  [Productions.Agreeing room p q] {e : Expr Mark} {start : Nat}

instance : Agrees room true (propertyKey p) (propertyKey q) := by
  unfold propertyKey
  refine @Agrees.bind _ _ _ _ _ _ _ _ _ _ fun token => ?_
  split <;> infer_instance

instance : Agrees room true (classKey p) (classKey q) := by
  unfold classKey
  refine @Agrees.bind _ _ _ _ _ _ _ _ _ _ fun token => ?_
  split <;> infer_instance

instance : Agrees room taken (primary p) (primary q) := by
  unfold primary
  refine @Agrees.bind _ _ _ _ _ _ _ _ _ _ fun state => ?_
  dsimp only
  split
  · infer_instance
  · split <;> infer_instance

instance : Agrees room taken (unary p) (unary q) := by
  unfold unary
  refine @Agrees.bind _ _ _ _ _ _ _ _ _ _ fun state => ?_
  dsimp only
  split <;> infer_instance

instance {least : Nat} : Agrees room true (binaryLink p least e) (binaryLink q least e) := by
  unfold binaryLink
  refine @Agrees.bind _ _ _ _ _ _ _ _ _ _ fun state => ?_
  split <;> infer_instance

/-! ### Statements -/

instance {head : Option (ForHead Mark)} {token : Token} :
    Agrees room true (forRest p start head token) (forRest q start head token) := by
  unfold forRest
  split <;> infer_instance

theorem rel_keywordStatement? :
    Option.Rel (Agrees room taken) (keywordStatement? p s) (keywordStatement? q s) := by
  unfold keywordStatement?
  dsimp only
  split
  case h_16 =>
    split
    · exact .none
    · exact .some inferInstance
  case h_20 => exact .none
  all_goals exact .some inferInstance

theorem rel_statementAhead? :
    Option.Rel (Agrees room taken) (statementAhead? p s) (statementAhead? q s) := by
  unfold statementAhead?
  dsimp only
  split
  · split
    · exact .some inferInstance
    · split
      · exact .some inferInstance
      · exact .none
  · exact rel_keywordStatement?
  · split
    · exact .some inferInstance
    · split
      · exact .some inferInstance
      · exact .none
  · exact .none

instance : Agrees room taken (statement p) (statement q) := by
  unfold statement
  refine @Agrees.bind _ _ _ _ _ _ _ _ _ _ fun state => ?_
  have ahead : Option.Rel (Agrees room taken) (statementAhead? p state) (statementAhead? q state) :=
    rel_statementAhead?
  generalize statementAhead? p state = found at ahead
  generalize statementAhead? q state = found' at ahead
  cases ahead with
  | some agrees => exact agrees
  | none => infer_instance

end Productions

/-! ## At the end of the row -/

section End

variable {p : Productions} {text : String} (ends : s.Ends) (ended : s.rest = [])

include ends ended

theorem current_eq_stop : s.current.kind = .eof := by
  rw [State.current, State.peek, ended]
  exact ends

theorem isPunct_of_ended : s.current.isPunct text = false := by
  simp [Token.isPunct, current_eq_stop ends ended]

theorem isKeyword_of_ended : s.current.isKeyword text = false := by
  simp [Token.isKeyword, current_eq_stop ends ended]

theorem isIdentifier_of_ended : s.current.isIdentifier text = false := by
  simp [Token.isIdentifier, current_eq_stop ends ended]

omit ends ended in
theorem bind_of_ok {x : Parse β} {f : β → Parse α} {b : β} (succeeds : x s = .ok b s') :
    (x >>= f) s = f b s' := by
  show EStateM.bind x f s = _
  rw [EStateM.bind, succeeds]

omit ends ended in
/-- A failure of the first step is a failure of all. -/
theorem bind_of_unexpected {x : Parse β} {f : β → Parse α} (fails : x s = unexpected s) :
    (x >>= f) s = unexpected s := by
  show EStateM.bind x f s = unexpected s
  rw [EStateM.bind, fails]
  rfl

/-- Nothing can start there, and so nothing is called there. -/
theorem primary_of_ended : primary p s = unexpected s := by
  have noFunction : s.asyncFunctionAhead = false := by
    simp [State.asyncFunctionAhead, isIdentifier_of_ended ends ended]
  have noAtom : atom? s.current = none := by simp [atom?, current_eq_stop ends ended]
  unfold primary
  rw [get_bind]
  simp only [noFunction, noAtom, isKeyword_of_ended ends ended, isPunct_of_ended ends ended,
    Bool.false_eq_true, if_false]

theorem chain_of_ended : chain p s = unexpected s := by
  unfold chain
  rw [atKeyword_bind]
  simp only [isKeyword_of_ended ends ended, Bool.false_eq_true, if_false]
  exact bind_of_unexpected (primary_of_ended ends ended)

theorem unary_of_ended : unary p s = unexpected s := by
  have noOperator : s.unaryAhead? = none := by
    simp [State.unaryAhead?, current_eq_stop ends ended]
  have noUpdate : isUpdate s.current = false := by simp [isUpdate, isPunct_of_ended ends ended]
  unfold unary
  rw [get_bind]
  simp only [noOperator, noUpdate, Bool.false_eq_true, if_false]
  exact bind_of_unexpected (chain_of_ended ends ended)

theorem binary_of_ended {least : Nat} : binary p least s = unexpected s :=
  bind_of_unexpected (unary_of_ended ends ended)

theorem assignment_of_ended : assignment p s = unexpected s := by
  have noArrow : s.arrowAhead = false := by
    have stop := current_eq_stop ends ended
    simp only [State.arrowAhead, isIdentifier_of_ended ends ended, Bool.false_and,
      Bool.false_eq_true, if_false]
    simp only [State.current] at stop
    simp [stop, Token.isPunct]
  unfold assignment
  rw [get_bind]
  simp only [noArrow, Bool.false_eq_true, if_false]
  rw [atKeyword_bind]
  simp only [isKeyword_of_ended ends ended, Bool.false_eq_true, if_false]
  exact bind_of_unexpected (bind_of_unexpected (binary_of_ended ends ended))

theorem construct_of_ended : construct p s = unexpected s := by
  have bumped : bump s = .ok s.current s := by
    rw [bump_run, State.next, ended]
  have uneaten : eatPunct "." s = .ok false s :=
    eatPunct_eq_ok.2 ⟨isPunct_of_ended ends ended, rfl⟩
  unfold construct
  rw [bind_of_ok bumped, bind_of_ok uneaten]
  simp only [Bool.false_eq_true, if_false]
  rw [atKeyword_bind]
  simp only [isKeyword_of_ended ends ended, Bool.false_eq_true, if_false]
  exact bind_of_unexpected (primary_of_ended ends ended)

theorem expressionStatement_of_ended : expressionStatement p s = unexpected s := by
  unfold expressionStatement
  rw [bind_of_ok (current_eq_ok.2 ⟨rfl, rfl⟩)]
  exact bind_of_unexpected (bind_of_unexpected (assignment_of_ended ends ended))

theorem statement_of_ended : statement p s = unexpected s := by
  have noProduction : statementAhead? p s = none := by
    simp [statementAhead?, current_eq_stop ends ended]
  unfold statement
  rw [get_bind, noProduction]
  exact expressionStatement_of_ended ends ended

end End

/-! ## Depth -/

/-- At the end of the row, productions that fail there agree. -/
theorem agrees_of_ended {x y : Parse α}
    (fails : ∀ {s : State}, s.Ends → s.rest = [] → x s = unexpected s)
    (fails' : ∀ {s : State}, s.Ends → s.rest = [] → y s = unexpected s) : Agrees 0 true x y where
  agrees within := by
    have ended := List.length_eq_zero_iff.1 (Nat.le_zero.1 within.length_le)
    rw [fails within.ends ended, fails' within.ends ended]

theorem agrees_of_untaken {room : Nat} {x y : Parse α} (agrees : Agrees room false x y) :
    Agrees (room + 1) true x y :=
  ⟨fun within => agrees.agrees ⟨within.ends, within.length_le⟩⟩

namespace Productions

variable {p q : Productions}

/-- Whatever productions are called, none of them is at the end of the row. -/
theorem agreeing_above_zero : Agreeing 0 p.above q.above where
  statement := agrees_of_ended statement_of_ended statement_of_ended
  assignment := agrees_of_ended assignment_of_ended assignment_of_ended
  binary _ := agrees_of_ended (fun ends ended => binary_of_ended ends ended)
    fun ends ended => binary_of_ended ends ended
  unary := agrees_of_ended unary_of_ended unary_of_ended
  chain := agrees_of_ended chain_of_ended chain_of_ended
  construct := agrees_of_ended construct_of_ended construct_of_ended
  primary := agrees_of_ended primary_of_ended primary_of_ended

/-- One level more is room for one token more. -/
theorem agreeing_above {room : Nat} [p.Stepping] [p.Taking] [Agreeing room p q] :
    Agreeing (room + 1) p.above q.above where
  statement := agrees_of_untaken <|
    inferInstanceAs (Agrees room false (Grammar.statement p) (Grammar.statement q))
  assignment := agrees_of_untaken <|
    inferInstanceAs (Agrees room false (Grammar.assignment p) (Grammar.assignment q))
  binary least := agrees_of_untaken <|
    inferInstanceAs (Agrees room false (Grammar.binary p least) (Grammar.binary q least))
  unary := agrees_of_untaken <|
    inferInstanceAs (Agrees room false (Grammar.unary p) (Grammar.unary q))
  chain := agrees_of_untaken <|
    inferInstanceAs (Agrees room false (Grammar.chain p) (Grammar.chain q))
  construct := agrees_of_untaken <|
    inferInstanceAs (Agrees room false (Grammar.construct p) (Grammar.construct q))
  primary := agrees_of_untaken <|
    inferInstanceAs (Agrees room false (Grammar.primary p) (Grammar.primary q))

/-- **The depth of the productions does not matter** beyond the tokens that are left, nor does what
stands at their bottom. -/
theorem agreeing_over (base : Productions) {room depth : Nat} (deep : room < depth) :
    Agreeing room (upTo (room + 1)) (base.over depth) := by
  induction room generalizing depth with
  | zero =>
    cases depth with
    | zero => cases deep
    | succ depth => exact agreeing_above_zero
  | succ room ih =>
    cases depth with
    | zero => cases deep
    | succ depth =>
      have agreeing := ih (Nat.lt_of_succ_lt_succ deep)
      exact agreeing_above

end Productions

/-! ## Loops -/

/-- Repeats `item` until `stop` answers yes, and does `out` if the bound is reached. -/
def manyOver (out : Parse (List α)) (stop : Parse Bool) (item : Parse α) :
    (bound : Nat) → Parse (List α)
  | 0 => out
  | bound + 1 => do
    if ← stop then return []
    let first ← item
    let others ← manyOver out stop item bound
    return first :: others

/-- Extends `value` by `step` as long as there is something to extend it by, and does `out` if the
bound is reached. -/
def extendOver (out : Parse α) (step : α → Parse (Option α)) : (bound : Nat) → α → Parse α
  | 0, _ => out
  | bound + 1, value => do
    match ← step value with
    | none => return value
    | some longer => extendOver out step bound longer

/-- A loop whose items take tokens does not reach a bound above the number of tokens. -/
theorem manyOver_eq_manyUpTo {stop : Parse Bool} {item : Parse α} [asks : Proceeds stop]
    [on : Proceeds item] [takes : Takes 1 item] (out : Parse (List α)) {bound bound' : Nat}
    (ends : s.Ends) (long : s.rest.length < bound) (long' : s.rest.length < bound') :
    manyOver out stop item bound s = manyUpTo stop item bound' s := by
  induction bound generalizing s bound' with
  | zero => cases long
  | succ bound ih =>
    cases bound' with
    | zero => cases long'
    | succ bound' =>
      unfold manyOver manyUpTo
      refine bind_congr rfl fun {stops middle} asked => ?_
      cases stops with
      | true => rfl
      | false =>
        refine bind_congr rfl fun one => ?_
        have before := asks.proceeds asked
        have less := takes.takes (ends.proceeds before) one
        have length := before.length_le
        have ends := (ends.proceeds before).proceeds (on.proceeds one)
        exact bind_congr (ih ends (by omega) (by omega)) fun _ => rfl

theorem manyOver_eq_manyUntil {stop : Parse Bool} {item : Parse α} [Proceeds stop]
    [Proceeds item] [Takes 1 item] (out : Parse (List α)) {bound : Nat} (ends : s.Ends)
    (long : s.rest.length < bound) : manyOver out stop item bound s = manyUntil stop item s :=
  manyOver_eq_manyUpTo out ends long (Nat.lt_succ_self _)

/-- Items that agree can be exchanged in a loop, whatever it does at its bound. -/
theorem manyOver_congr {stop : Parse Bool} {item item' : Parse α} {room : Nat} {taken : Bool}
    [asks : Proceeds stop] [on : Proceeds item] [agrees : Agrees room taken item item']
    (out : Parse (List α)) {bound : Nat} (within : s.Within room taken) :
    manyOver out stop item bound s = manyOver out stop item' bound s := by
  induction bound generalizing s with
  | zero => rfl
  | succ bound ih =>
    unfold manyOver
    refine bind_congr rfl fun {stops middle} asked => ?_
    cases stops with
    | true => rfl
    | false =>
      have within := within.proceeds (asks.proceeds asked)
      refine bind_congr (agrees.agrees within) fun one => ?_
      exact bind_congr (ih (within.proceeds (on.proceeds one))) fun _ => rfl

/-- The parse takes a token if it finds something. -/
class TakesFinding (parse : Parse (Option α)) : Prop where
  takes : ∀ {s : State} {a : α} {s' : State}, s.Ends → parse s = .ok (some a) s' →
    s'.rest.length + 1 ≤ s.rest.length

/-- A loop whose steps take tokens does not reach a bound above the number of tokens. -/
theorem extendOver_eq_extend {step : α → Parse (Option α)} [on : ∀ value, Proceeds (step value)]
    [takes : ∀ value, TakesFinding (step value)] (out : Parse α) {bound : Nat} {value : α}
    (ends : s.Ends) (long : s.rest.length < bound) :
    extendOver out step bound value s = extend step value s := by
  suffices ∀ bound', s.rest.length < bound' →
      extendOver out step bound value s = extendUpTo step bound' value s from
    this _ (Nat.lt_succ_self _)
  induction bound generalizing s value with
  | zero => cases long
  | succ bound ih =>
    intro bound' long'
    cases bound' with
    | zero => cases long'
    | succ bound' =>
      unfold extendOver extendUpTo
      refine bind_congr rfl fun {found middle} one => ?_
      cases found with
      | none => rfl
      | some longer =>
        have less := (takes value).takes ends one
        exact ih (ends.proceeds ((on value).proceeds one)) (by omega) bound' (by omega)

namespace TakesFinding

instance unfolds {x y : Parse (Option α)} [unfolds : Unfolds x y] [takes : TakesFinding y] :
    TakesFinding x :=
  unfolds.eq ▸ takes

instance none : TakesFinding (Pure.pure none : Parse (Option α)) where
  takes _ run := by cases run

instance eatPunct {text : String} {parse parse' : Parse (Option α)} [yes : Proceeds parse]
    [no : TakesFinding parse'] : TakesFinding
      (Grammar.eatPunct text >>= fun b => if b = true then parse else parse') where
  takes ends run := by
    obtain ⟨_, _, looked, run⟩ := bind_eq_ok.1 run
    obtain ⟨rfl, rfl⟩ := eatPunct_eq_ok.1 looked
    split at run
    · next is =>
      have taken := State.length_next (ends.live_of_isPunct is)
      have onward := (yes.proceeds run).length_le
      omega
    · exact no.takes ends run

instance atPunct {text : String} {parse parse' : Parse (Option α)} [yes : TakesLive parse]
    [no : TakesFinding parse'] : TakesFinding
      (Grammar.atPunct text >>= fun b => if b = true then parse else parse') where
  takes ends run := by
    replace run := atPunct_bind.symm.trans run
    split at run
    · next is => exact yes.takes ends (ends.live_of_isPunct is) run
    · exact no.takes ends run

instance atTemplate {parse parse' : Parse (Option α)} [yes : TakesLive parse]
    [no : TakesFinding parse'] : TakesFinding
      (Grammar.current >>= fun token => if token.kind = .template then parse else parse') where
  takes ends run := by
    replace run := current_bind.symm.trans run
    split at run
    · next is => exact yes.takes ends (ends.live (by simp [is])) run
    · exact no.takes ends run

section Productions

variable {p : Productions} [p.Stepping] [p.Taking] {start least : Nat} {e : Expr Mark}

instance : TakesFinding (binaryLink p least e) where
  takes {s _ _} ends run := by
    obtain ⟨op, right, middle, _, _, operand, _, rfl⟩ := binaryLink_eq_some.1 run
    have onward := (State.Steps.next s).proceeds
    have taken : middle.rest.length + 1 ≤ s.next.rest.length :=
      Takes.takes (ends.proceeds onward) operand
    exact taken.trans onward.length_le

end Productions

end TakesFinding

end TidyScript.Grammar
