import TidyScript.Proofs.Grammar.Steps

/-!
# Every production steps

The productions go through their states by steps, and the lists of statements that they put into
the tables have been recited. For most productions this is found from their parts. Those that
complete a block, a function, a branch, a loop, a `switch` or a label read the statements
themselves, and parentheses are put around an expression that has been completed before, possibly a
function.
-/

namespace TidyScript.Grammar

-- productions are long rows of steps
set_option synthInstance.maxSize 1000000000

variable {α β : Type} {p : Productions} {s s' s'' : State} {row : TokenRow} {x : Stmt Mark}
  {e : Expr Mark}

/-- The expression stands in the table of the second state, and its list, if it has one, has been
recited since the first. -/
structure State.Tells (s : State) (e : Expr Mark) (s' : State) : Prop where
  placed : s'.exprs[e.index]? = some e
  lists : ∀ row, s.Told row → ∀ list ∈ e.lists, s'.Recited row list

theorem State.Tells.of_plain (placed : s'.exprs[e.index]? = some e) (plain : e.lists = []) :
    s.Tells e s' :=
  ⟨placed, fun _ _ list mem => by rw [plain] at mem; cases mem⟩

theorem State.Tells.before (tells : s'.Tells e s'') (steps : s.Steps s') : s.Tells e s'' :=
  ⟨tells.placed, fun row told => tells.lists row (steps.told row told)⟩

/-- The parse tells of the expression that it reads. -/
class Tells (parse : Parse (Expr Mark)) : Prop where
  tells : ∀ {s e s'}, parse s = .ok e s' → s.Tells e s'

/-- All productions that are called step. -/
class Productions.Stepping (p : Productions) : Prop where
  upTo : ∃ depth, p = Productions.upTo depth
  statement : Steps p.statement
  assignment : Steps p.assignment
  binary : ∀ least, Steps (p.binary least)
  unary : Steps p.unary
  chain : Steps p.chain
  construct : Steps p.construct
  primary : Steps p.primary
  tells : Tells p.assignment

namespace Productions.Stepping

attribute [instance] statement assignment binary unary chain construct primary tells

end Productions.Stepping

/-! ## Recitals -/

theorem State.Recited.of_recital {first last : State} {list : List (Stmt Mark)}
    (recital : Recital first list last) (told : s.Told row) (before : s.Steps first)
    (behind : last.Steps s') : s'.Recited row list :=
  ⟨first, last, recital, before.suffix.trans told.suffix, before.stop.trans told.stop,
    behind.quoted⟩

theorem Productions.Stepping.recital [stepping : p.Stepping] (run : p.statement s = .ok x s') :
    Recital s [x] s' := by
  obtain ⟨depth, rfl⟩ := stepping.upTo
  exact .cons depth run (.nil s')

theorem Recital.append {xs ys : List (Stmt Mark)} (first : Recital s xs s')
    (second : Recital s' ys s'') : Recital s (xs ++ ys) s'' := by
  induction first with
  | nil => exact second
  | cons depth read _ ih => exact .cons depth read (ih second)

/-- A statement that has to be there. -/
def dueStatement (p : Productions) : Parse (Stmt Mark) := do
  if ← atEnd then expected "'\x7d'"
  p.statement

theorem dueStatement_eq_ok :
    dueStatement p s = .ok x s' ↔ s.current.kind ≠ .eof ∧ p.statement s = .ok x s' := by
  simp only [dueStatement, bind_eq_ok, atEnd_eq_ok]
  constructor
  · rintro ⟨_, _, ⟨rfl, rfl⟩, run⟩
    split at run
    · obtain ⟨_, _, failed, _⟩ := bind_eq_ok.1 run
      exact absurd failed expected_ne_ok
    · next live => exact ⟨by simpa using live, run⟩
  · rintro ⟨live, run⟩
    exact ⟨_, _, ⟨rfl, rfl⟩, by rw [if_neg (by simpa using live)]; exact run⟩

/-- Statements that are read up to a token that stays are recited. -/
theorem recital_of_manyUpTo {stop : Parse Bool} {item : Parse (Stmt Mark)}
    (stays : ∀ {s b s'}, stop s = .ok b s' → s = s')
    (each : ∀ {s x s'}, item s = .ok x s' → Recital s [x] s') {bound : Nat}
    {items : List (Stmt Mark)} (run : manyUpTo stop item bound s = .ok items s') :
    Recital s items s' := by
  induction bound generalizing s items with
  | zero => exact absurd run manyUpTo_zero
  | succ bound ih =>
    rcases manyUpTo_succ.1 run with
      ⟨asked, rfl⟩ | ⟨before, first, middle, others, asked, one, more, rfl⟩
    · obtain rfl := stays asked
      exact .nil s
    · obtain rfl := stays asked
      exact (each one).append (ih more)

theorem recital_of_dueStatement [p.Stepping] (run : dueStatement p s = .ok x s') :
    Recital s [x] s' :=
  Productions.Stepping.recital (dueStatement_eq_ok.1 run).2

section Productions

variable [p.Stepping]

instance : Steps.Recites p.statement ([[·]]) where
  recited run told list mem := by
    obtain rfl := List.mem_singleton.1 mem
    exact .of_recital (Productions.Stepping.recital run) told (.refl _) (.refl _)

instance : Steps (dueStatement p) := by
  unfold dueStatement
  infer_instance

instance : Steps (statementList p) :=
  inferInstanceAs (Steps (expectPunct "\x7b" >>= fun _ =>
    manyUntil (atPunct "\x7d") (dueStatement p) >>= fun body => bump >>= fun _ => pure body))

instance : Steps.Recites (statementList p) ([·]) where
  recited run told list mem := by
    obtain ⟨_, _, brace, run⟩ := bind_eq_ok.1 run
    obtain ⟨_, middle, many, run⟩ := bind_eq_ok.1 run
    obtain ⟨_, _, closing, run⟩ := bind_eq_ok.1 run
    obtain ⟨rfl, rfl⟩ := pure_eq_ok.1 run
    obtain rfl := List.mem_singleton.1 mem
    have recital := recital_of_manyUpTo (fun asked => (atPunct_eq_ok.1 asked).2)
      recital_of_dueStatement (manyUntil_eq_ok.1 many)
    exact .of_recital recital told (Steps.steps brace) (Steps.steps closing)

instance : Steps (propertyKey p) := by
  unfold propertyKey
  refine Along.seq inferInstance fun token => ?_
  split <;> infer_instance

instance : Steps (classKey p) := by
  unfold classKey
  refine Along.seq inferInstance fun token => ?_
  split <;> infer_instance

/-! ## Expressions that tell their lists -/

theorem State.getElem?_grow (s : State) {e : Expr Mark} (index : e.index = s.exprs.size) :
    (s.grow e).exprs[e.index]? = some e := by
  rw [index]
  exact Array.getElem?_push_size

namespace Tells

instance unfolds {x y : Parse (Expr Mark)} [unfolds : Unfolds x y] [tells : Tells y] : Tells x :=
  unfolds.eq ▸ tells

instance bind {parse : Parse β} {f : β → Parse (Expr Mark)} [first : Steps parse]
    [last : ∀ b, Tells (f b)] : Tells (parse >>= f) where
  tells run := by
    obtain ⟨b, _, run, run'⟩ := bind_eq_ok.1 run
    exact ((last b).tells run').before (first.along run)

instance ite {c : Prop} [Decidable c] {parse parse' : Parse (Expr Mark)} [Tells parse]
    [Tells parse'] : Tells (if c then parse else parse') := by split <;> assumption

instance unexpected : Tells Grammar.unexpected where
  tells run := absurd run unexpected_ne_ok

instance finishExpr {start : Nat} {build : Mark → Expr Mark} [holds : Steps.HoldsExpr [] build] :
    Tells (Grammar.finishExpr start build) where
  tells run := by
    obtain ⟨rfl, rfl⟩ := finishExpr_eq_ok.1 run
    exact .of_plain (State.getElem?_grow _ (congrArg Mark.index (holds.mark_eq _)))
      (List.subset_nil.1 (holds.subset _))

instance recites {parse : Parse β} {lists : β → List (List (Stmt Mark))} {start : Nat}
    {build : β → Mark → Expr Mark} [recites : Steps.Recites parse lists]
    [holds : ∀ b, Steps.HoldsExpr (lists b ++ []) (build b)] :
    Tells (parse >>= fun b => Grammar.finishExpr start (build b)) where
  tells run := by
    obtain ⟨b, _, read, run⟩ := bind_eq_ok.1 run
    obtain ⟨rfl, rfl⟩ := finishExpr_eq_ok.1 run
    refine ⟨State.getElem?_grow _ (congrArg Mark.index ((holds b).mark_eq _)),
      fun row told list mem => ?_⟩
    have mem := (holds b).subset _ mem
    rw [List.append_nil] at mem
    exact (recites.recited read told list mem).mono (State.Keeps.grow ..).quoted

end Tells

/-- The expression that a step of a loop makes, if any, stands in the table and has no list. -/
class Makes (step : Parse (Option (Expr Mark))) : Prop where
  makes : ∀ {s e s'}, step s = .ok (some e) s' → s'.exprs[e.index]? = some e ∧ e.lists = []

namespace Makes

instance unfolds {x y : Parse (Option (Expr Mark))} [unfolds : Unfolds x y] [makes : Makes y] :
    Makes x :=
  unfolds.eq ▸ makes

instance none : Makes (pure Option.none) where
  makes run := nomatch (pure_eq_ok.1 run).1

instance bind {parse : Parse β} {f : β → Parse (Option (Expr Mark))} [last : ∀ b, Makes (f b)] :
    Makes (parse >>= f) where
  makes run := by
    obtain ⟨b, _, _, run'⟩ := bind_eq_ok.1 run
    exact (last b).makes run'

instance ite {c : Prop} [Decidable c] {parse parse' : Parse (Option (Expr Mark))}
    [Makes parse] [Makes parse'] : Makes (if c then parse else parse') := by split <;> assumption

instance finishExpr {start : Nat} {build : Mark → Expr Mark} [holds : Steps.HoldsExpr [] build] :
    Makes (Grammar.finishExpr start build >>= fun e => pure (some e)) where
  makes run := by
    obtain ⟨e, _, made, run⟩ := bind_eq_ok.1 run
    obtain ⟨same, rfl⟩ := pure_eq_ok.1 run
    cases same
    refine ⟨(Tells.tells made).placed, ?_⟩
    rw [← (finishExpr_eq_ok.1 made).1]
    exact List.subset_nil.1 (holds.subset _)

end Makes

/-- Started behind an expression that tells its list, the parse ends with one, which may be the
same. -/
class Carries (head : Expr Mark) (parse : Parse (Expr Mark)) : Prop where
  carries : ∀ {first s s' : State} {e}, parse s = .ok e s' → first.Steps s → first.Tells head s →
    first.Tells e s'

namespace Carries

variable {head : Expr Mark}

instance pure : Carries head (Pure.pure head) where
  carries run _ tells := by
    obtain ⟨rfl, rfl⟩ := pure_eq_ok.1 run
    exact tells

instance of_tells {parse : Parse (Expr Mark)} [telling : Tells parse] : Carries head parse where
  carries run steps _ := (telling.tells run).before steps

instance ite {c : Prop} [Decidable c] {parse parse' : Parse (Expr Mark)}
    [Carries head parse] [Carries head parse'] :
    Carries head (if c then parse else parse') := by split <;> assumption

/-- Looking at the state changes nothing. -/
theorem look {parse : Parse β} (stays : ∀ {s b s'}, parse s = .ok b s' → s = s')
    {f : β → Parse (Expr Mark)} [last : ∀ b, Carries head (f b)] : Carries head (parse >>= f) where
  carries run := by
    obtain ⟨b, _, looked, run⟩ := bind_eq_ok.1 run
    obtain rfl := stays looked
    exact (last b).carries run

instance current {f : Token → Parse (Expr Mark)} [∀ token, Carries head (f token)] :
    Carries head (Grammar.current >>= f) :=
  look fun looked => (current_eq_ok.1 looked).2

instance atPunct {text : String} {f : Bool → Parse (Expr Mark)} [∀ b, Carries head (f b)] :
    Carries head (Grammar.atPunct text >>= f) :=
  look fun looked => (atPunct_eq_ok.1 looked).2

/-- A loop, in which a step that makes nothing does nothing. -/
theorem extend {step : Expr Mark → Parse (Option (Expr Mark))} [∀ e, Steps (step e)]
    [makes : ∀ e, Makes (step e)] (stays : ∀ {e s s'}, step e s = .ok none s' → s = s') :
    Carries head (Grammar.extend step head) := by
  have loop : ∀ bound, Carries head (extendUpTo step bound head) := by
    intro bound
    induction bound generalizing head with
    | zero => exact inferInstanceAs (Carries head Grammar.unexpected)
    | succ bound ih =>
      refine ⟨fun run steps tells => ?_⟩
      rcases extendUpTo_succ.1 run with ⟨stops, rfl⟩ | ⟨longer, middle, one, more⟩
      · exact stays stops ▸ tells
      · obtain ⟨placed, plain⟩ := (makes head).makes one
        exact ih.carries more (steps.trans (Steps.steps one)) (.of_plain placed plain)
  exact ⟨fun run => (loop _).carries (extend_eq_ok.1 run)⟩

end Carries

instance Tells.carry {parse : Parse (Expr Mark)} {f : Expr Mark → Parse (Expr Mark)}
    [first : Tells parse] [Steps parse] [last : ∀ e, Carries e (f e)] : Tells (parse >>= f) where
  tells run := by
    obtain ⟨e, _, one, run⟩ := bind_eq_ok.1 run
    exact (last e).carries run (Steps.steps one) (first.tells one)

/-- An expression with the parentheses around it, which are not recorded. -/
def inParentheses (p : Productions) : Parse (Expr Mark) := do
  let _ ← bump
  let inner ← withNoIn false (sequence p.assignment)
  let _ ← expectPunct ")"
  return inner

instance : Steps (inParentheses p) := by
  unfold inParentheses
  infer_instance

instance : Tells (inParentheses p) where
  tells run := by
    obtain ⟨_, _, opening, run⟩ := bind_eq_ok.1 run
    obtain ⟨inner, _, found, run⟩ := bind_eq_ok.1 run
    obtain ⟨_, _, closing, run⟩ := bind_eq_ok.1 run
    obtain ⟨rfl, rfl⟩ := pure_eq_ok.1 run
    have opened := Steps.steps opening
    have closed := Steps.steps closing
    obtain ⟨middle, inside, rfl⟩ := withNoIn_eq_ok.1 found
    obtain ⟨placed, lists⟩ := Tells.tells inside
    refine ⟨?_, fun row told list mem =>
      (lists row ((opened.told row told).inMode false) list mem).mono closed.quoted⟩
    obtain ⟨_, _, rfl⟩ := expectPunct_eq_ok.1 closing
    rw [State.exprs_next]
    exact placed

omit [p.Stepping] in
/-- The parentheses are recorded behind the expression. -/
theorem inParentheses_of_parenthesized (run : parenthesized p s = .ok e s') :
    ∃ (inner : Expr Mark) (behind : State) (outer : Span), inParentheses p s = .ok inner behind ∧
      inner.withMark { inner.mark with outer } = e ∧
        behind.enclosing (inner.withMark { inner.mark with outer }) = s' := by
  obtain ⟨left, first, opening, run⟩ := bind_eq_ok.1 run
  obtain ⟨inner, second, found, run⟩ := bind_eq_ok.1 run
  obtain ⟨right, third, closing, run⟩ := bind_eq_ok.1 run
  refine ⟨inner, third, ⟨left.span.start, right.span.stop⟩, ?_, enclose_eq_ok.1 run⟩
  exact bind_eq_ok.2 ⟨_, _, opening, bind_eq_ok.2 ⟨_, _, found, bind_eq_ok.2 ⟨_, _, closing,
    pure_eq_ok.2 ⟨rfl, rfl⟩⟩⟩⟩

instance : Steps (parenthesized p) where
  along run := by
    obtain ⟨inner, behind, outer, inside, rfl, rfl⟩ := inParentheses_of_parenthesized run
    have tells := Tells.tells inside
    exact (Steps.steps inside).enclosing tells.placed outer tells.lists

instance : Tells (parenthesized p) where
  tells run := by
    obtain ⟨inner, behind, outer, inside, rfl, rfl⟩ := inParentheses_of_parenthesized run
    have tells := Tells.tells inside
    refine ⟨?_, fun row told list mem => ?_⟩
    · rw [Expr.index, Expr.mark_withMark]
      exact State.getElem?_enclosing tells.placed outer
    · rw [Expr.lists_withMark] at mem
      exact (tells.lists row told list mem).mono (State.Keeps.enclosing tells.placed outer).quoted

instance : Steps (primary p) := by
  unfold primary
  refine Along.seq inferInstance fun state => ?_
  dsimp only
  cases found : atom? state.current with
  | some build =>
    have {lists} : Steps.HoldsExpr lists build := .of_atom? found
    infer_instance
  | none => infer_instance

instance : Tells (primary p) := by
  unfold primary
  refine @Tells.bind _ _ _ _ fun state => ?_
  dsimp only
  cases found : atom? state.current with
  | some build =>
    have {lists} : Steps.HoldsExpr lists build := .of_atom? found
    infer_instance
  | none => infer_instance

/-! ## Members and calls -/

instance {start : Nat} : Carries e (extend (chainLink p start) e) :=
  .extend fun stops => (chainLink_eq_none.1 stops).2

/-! ## Operators -/

instance : Steps (unary p) := by
  unfold unary
  refine Along.seq inferInstance fun state => ?_
  dsimp only
  split <;> infer_instance

instance : Tells (unary p) := by
  unfold unary
  refine @Tells.bind _ _ _ _ fun state => ?_
  dsimp only
  split <;> infer_instance

instance {least : Nat} : Steps (binaryLink p least e) := by
  unfold binaryLink
  refine Along.seq inferInstance fun state => ?_
  split <;> infer_instance

instance {least : Nat} : Makes (binaryLink p least e) := by
  unfold binaryLink
  refine @Makes.bind _ _ _ fun state => ?_
  split <;> infer_instance

instance {least : Nat} : Carries e (extend (binaryLink p least) e) :=
  .extend fun stops => (binaryLink_eq_none.1 stops).1

instance : Steps.Recites (arrowBody p) FunctionBody.lists where
  recited run told list mem := by
    replace run := atPunct_bind.symm.trans run
    split at run
    · obtain ⟨statements, _, found, run⟩ := bind_eq_ok.1 run
      obtain ⟨rfl, rfl⟩ := pure_eq_ok.1 run
      exact Steps.Recites.recited found told list mem
    · obtain ⟨value, _, found, run⟩ := bind_eq_ok.1 run
      obtain ⟨rfl, rfl⟩ := pure_eq_ok.1 run
      cases mem

/-! ## Statements -/

instance {head : Option (ForHead Mark)} : Steps (forInit head) := by
  unfold forInit
  split <;> infer_instance

instance {start : Nat} {head : Option (ForHead Mark)} {token : Token} :
    Steps (forRest p start head token) := by
  unfold forRest
  split <;> infer_instance

instance : Steps.Recites (switchCase p) ([·.consequent]) := by
  have body (test : Option (Expr Mark)) : Steps.Recites (do
      let _ ← expectPunct ":"
      let consequent ← manyUntil atCaseEnd (dueStatement p)
      return (⟨test, consequent⟩ : SwitchCase Mark)) ([·.consequent]) := by
    refine .bind fun _ => ⟨fun run told list mem => ?_⟩
    obtain ⟨consequent, _, many, run⟩ := bind_eq_ok.1 run
    obtain ⟨rfl, rfl⟩ := pure_eq_ok.1 run
    obtain rfl := List.mem_singleton.1 mem
    have recital := recital_of_manyUpTo (fun asked => by cases asked; rfl)
      recital_of_dueStatement (manyUntil_eq_ok.1 many)
    exact .of_recital recital told (.refl _) (.refl _)
  exact .bind fun _ => .ite (.bind fun _ => .bind fun _ => .bind fun _ => body _)
    (.bind fun _ => .bind fun _ => body _)

theorem steps_of_statementAhead? {production : Parse (Stmt Mark)}
    (found : statementAhead? p s = some production) : Steps production := by
  apply of_statementAhead? found <;> intros <;> and_intros <;> infer_instance

instance : Steps (statement p) := by
  refine Along.seq inferInstance fun state => ?_
  cases found : statementAhead? p state with
  | some production => exact steps_of_statementAhead? found
  | none => exact inferInstanceAs (Steps (expressionStatement p))

end Productions

/-- Productions of every depth step. -/
instance Productions.upTo_stepping (depth : Nat) : (Productions.upTo depth).Stepping := by
  induction depth <;> refine ⟨⟨_, rfl⟩, ?_, ?_, ?_, ?_, ?_, ?_, ?_, ?_⟩ <;>
    dsimp only [Productions.upTo, Productions.none] <;> infer_instance

end TidyScript.Grammar
