import TidyScript.Proofs.Grammar.Beside

/-!
# Productions side by side

Every production, run from two states side by side, stays abreast. Two depths are compared at once,
since the depth of a parse depends on the tokens that come behind the rows.
-/

namespace TidyScript.Grammar

-- productions are long rows of steps
set_option synthInstance.maxSize 1000000000

variable {α β : Type} {p q : Productions} {s s' t t' : State} {x y : List Token} {loose : Bool}

/-- The productions of the two depths meet. Operators may leave them barred. -/
class Productions.Meeting (p q : Productions) : Prop where
  statement : ∀ {loose}, Meets loose p.statement q.statement
  assignment : Meets true p.assignment q.assignment
  binary : ∀ least, Meets true (p.binary least) (q.binary least)
  unary : ∀ {loose}, Meets loose p.unary q.unary
  chain : ∀ {loose}, Meets loose p.chain q.chain
  construct : ∀ {loose}, Meets loose p.construct q.construct
  primary : ∀ {loose}, Meets loose p.primary q.primary

namespace Productions.Meeting

attribute [instance] statement assignment binary unary chain construct primary

end Productions.Meeting

section Productions

variable [p.Stepping] [q.Stepping] [p.Taking] [q.Taking] [Productions.Meeting p q]
  {e e' : Expr Mark} {start start' : Nat}

/-! ## Parts of functions -/

instance {primary primary' : Parse (Expr Mark)} [whenYes : Meets loose primary primary']
    [Takes 1 primary] [Takes 1 primary'] :
    Meets loose (bindingTarget primary) (bindingTarget primary') where
  meets beside :=
    .test (c := fun token => token.isPunct "\x7b" || token.isPunct "[")
      (fun same => by rw [Token.isPunct_eq_of_same same, Token.isPunct_eq_of_same same])
      (fun eof => by rw [isPunct_of_eof eof, isPunct_of_eof eof]; rfl) beside
      fun _ _ => whenYes.meets beside

/-! ## Literals with parts -/

/-- Passes over one modifier, if it comes next. -/
def skipModifier (_ : Unit) : Parse (Option Unit) := do
  if (← get).modifierAhead then
    let _ ← bump
    return some ()
  else return none

instance : ∀ u, Steps (skipModifier u) := fun _ => by
  unfold skipModifier
  infer_instance

theorem skipModifier_bind {f : Unit → Parse α} {bound : Nat} :
    (extendUpTo skipModifier (bound + 1) () >>= f) s =
      (if s.modifierAhead = true then bump >>= fun _ => extendUpTo skipModifier bound () >>= f
        else f ()) s := by
  rw [extendUpTo_eq_bind, skipModifier, bind_assoc, bind_assoc, get_bind]
  split
  · rw [bind_assoc]
    rfl
  · rfl

theorem modifierAhead_eq_of_twins (first : Twin s.current t.current)
    (second : Twin (s.peek 1) (t.peek 1)) : s.modifierAhead = t.modifierAhead := by
  unfold State.modifierAhead
  dsimp only
  rw [Token.test_eq_of_same first.same (by simp) (State.modifiers.contains ·),
    Token.test_eq_of_same second.same (by simp) (State.nameEnders.contains ·),
    Token.kind_eq_of_same second.same, Token.isPunct_eq_of_same first.same]

theorem kind_ne_eof_of_modifierAhead (ahead : s.modifierAhead = true) : s.current.kind ≠ .eof := by
  intro eof
  simp [State.modifierAhead, isPunct_of_eof eof, eof] at ahead

theorem skipModifier_meets [View α] {f f' : Unit → Parse α} [goesOn : Meets loose (f ()) (f' ())]
    [∀ u, Proceeds (f u)] [∀ u, Proceeds (f' u)] [∀ u, Takes 1 (f u)] [∀ u, Takes 1 (f' u)]
    (bound bound' : Nat) :
    Meets loose (extendUpTo skipModifier bound () >>= f)
      (extendUpTo skipModifier bound' () >>= f') := by
  induction bound generalizing bound' with
  | zero => exact inferInstanceAs (Meets loose (unexpected >>= f) _)
  | succ bound ih =>
    cases bound' with
    | zero =>
      refine ⟨fun _ => Overruns.meet_right fun _ _ run => ?_⟩
      obtain ⟨_, _, failed, _⟩ := bind_eq_ok.1 run
      exact absurd failed extendUpTo_zero
    | succ bound' =>
      have more := ih bound'
      refine ⟨fun beside => ?_⟩
      rw [skipModifier_bind, skipModifier_bind]
      exact .test_two (fun first second _ => modifierAhead_eq_of_twins first second)
        kind_ne_eof_of_modifierAhead beside (fun _ => Meets.meets beside) (goesOn.meets beside)

/-- Modifiers are passed over in step, if a name follows. -/
instance skipModifiers_meets [View α] {f f' : Unit → Parse α} [Meets loose (f ()) (f' ())]
    [∀ u, Proceeds (f u)] [∀ u, Proceeds (f' u)] [∀ u, Takes 1 (f u)] [∀ u, Takes 1 (f' u)] :
    Meets loose (skipModifiers >>= f) (skipModifiers >>= f') where
  meets beside := (skipModifier_meets _ _).meets beside

instance : Meets loose (propertyKey p) (propertyKey q) :=
  .current_taken (inferInstanceAs (Takes 1 (propertyKey p))) fun pair => by
    rw [← pair.kind]
    split
    · next is => rw [pair.text (by simp [is])]; infer_instance
    · next is => rw [pair.text (by simp [is])]; infer_instance
    · next is => rw [pair.text (by simp [is])]; infer_instance
    · infer_instance
    · rw [pair.isPunct]; infer_instance

instance : Meets true (objectProperty p) (objectProperty q) := by
  unfold objectProperty
  dsimp only
  refine @Meets.current _ _ _ _ _ fun _ _ =>
    @skipModifiers_meets _ _ _ _ _ (.current_taken inferInstance inferInstance) _ _ _ _

/-! ## Classes -/

instance : Meets loose (classKey p) (classKey q) :=
  .current_taken (inferInstanceAs (Takes 1 (classKey p))) fun pair => by
    rw [← pair.kind, pair.isPunct]
    split <;> infer_instance

/-- A block in a class has a word in front. -/
instance staticBlock_meets [View α] {f f' : Token → Parse α} {no no' : Parse α}
    [Meets loose (bump >>= f) (bump >>= f')] [Meets loose no no'] [∀ token, Takes 1 (f token)]
    [∀ token, Takes 1 (f' token)] :
    Meets loose
      (current >>= fun token => peek 1 >>= fun next =>
        if (token.isIdentifier "static" && next.isPunct "\x7b") = true then bump >>= f else no)
      (current >>= fun token => peek 1 >>= fun next =>
        if (token.isIdentifier "static" && next.isPunct "\x7b") = true then bump >>= f'
        else no') where
  meets beside :=
    .test_two (c := fun s => s.current.isIdentifier "static" && (s.peek 1).isPunct "\x7b")
      (fun first second _ => by
        rw [Token.isIdentifier_eq_of_same first.same, Token.isPunct_eq_of_same second.same])
      (fun is eof => by simp [Token.isIdentifier, eof] at is) beside (fun _ => Meets.meets beside)
      (Meets.meets beside)

/-! ## Operands -/

instance : Meets loose (parenthesized p) (parenthesized q) where
  meets beside _ _ _ _ run run' fine fine' := by
    obtain ⟨inner, behind, outer, inside, rfl, rfl⟩ := inParentheses_of_parenthesized run
    obtain ⟨inner', behind', outer', inside', rfl, rfl⟩ := inParentheses_of_parenthesized run'
    have placed := (Tells.tells inside).placed
    have placed' := (Tells.tells inside').placed
    have meets : Meets false (inParentheses p) (inParentheses q) := by
      unfold inParentheses
      infer_instance
    obtain ⟨like, beside⟩ := (meets.meets beside inside inside'
      ⟨fine.length_le, fine.unquoted ∘ (State.Keeps.enclosing placed outer).quoted⟩
      ⟨fine'.length_le, fine'.unquoted ∘ (State.Keeps.enclosing placed' outer').quoted⟩).strict
    exact .inl ⟨inferInstance, beside.of_rest rfl rfl rfl rfl⟩

/-- What a single token stands for is the same for both of two twins. -/
theorem atom?_of_twins (pair : Twins) :
    (atom? pair.left = none ∧ atom? pair.right = none) ∨
      ∃ build build', atom? pair.left = some build ∧ atom? pair.right = some build' ∧
        ∀ mark mark', Like (build mark) (build' mark') := by
  unfold atom?
  rw [← pair.kind]
  split
  · next is =>
    rw [pair.text (by simp [is])]
    exact .inr ⟨_, _, rfl, rfl, fun _ _ => inferInstance⟩
  · next is =>
    rw [pair.text (by simp [is])]
    exact .inr ⟨_, _, rfl, rfl, fun _ _ => ⟨rfl⟩⟩
  · exact .inr ⟨_, _, rfl, rfl, fun _ _ => ⟨rfl⟩⟩
  · exact .inr ⟨_, _, rfl, rfl, fun _ _ => ⟨rfl⟩⟩
  · exact .inr ⟨_, _, rfl, rfl, fun _ _ => ⟨rfl⟩⟩
  · next is =>
    rw [pair.text (by simp [is])]
    repeat' split
    all_goals first
      | exact .inl ⟨rfl, rfl⟩
      | exact .inr ⟨_, _, rfl, rfl, fun _ _ => ⟨rfl⟩⟩
  · exact .inl ⟨rfl, rfl⟩

instance (pair : Twins) : Meets loose (compound p pair.left) (compound q pair.right) := by
  unfold compound
  simp only [pair.isPunct, pair.isKeyword]
  infer_instance

/-- An operand that has no word `async` in front. -/
def operand (p : Productions) (token : Token) : Parse (Expr Mark) :=
  match atom? token with
  | some build => do
    let _ ← bump
    finishExpr token.span.start build
  | none => compound p token

instance operand_meets (pair : Twins) :
    Meets loose (operand p pair.left) (operand q pair.right) := by
  unfold operand
  rcases atom?_of_twins pair with ⟨none, none'⟩ | ⟨build, build', found, found', like⟩
  · rw [none, none']
    infer_instance
  · rw [found, found']
    infer_instance

theorem overruns_of_operand (ends : s.Ends) (ended : s.rest = x) :
    Overruns x (operand p s.current s) := by
  unfold operand
  cases found : atom? s.current with
  | some build => exact .of_live ends ended (kind_ne_eof_of_atom? found)
  | none => exact .of_takes ends ended

omit [p.Stepping] [p.Taking] in
theorem primary_eq (p : Productions) (s : State) :
    primary p s =
      (if s.asyncFunctionAhead = true then
        bump >>= fun _ => functionExpression p s.current.span.start
      else operand p s.current) s :=
  rfl

theorem asyncFunctionAhead_eq_of_twins (first : Twin s.current t.current)
    (second : Twin (s.peek 1) (t.peek 1))
    (breaks : s.current.cutsOff = true → (s.peek 1).newlineBefore = (t.peek 1).newlineBefore) :
    s.asyncFunctionAhead = t.asyncFunctionAhead := by
  unfold State.asyncFunctionAhead
  rw [← Token.isIdentifier_eq_of_same first.same, ← Token.isKeyword_eq_of_same second.same]
  cases is : s.current.isIdentifier "async"
  · rfl
  · rw [breaks (by simp [Token.cutsOff, is])]

theorem kind_ne_eof_of_asyncFunctionAhead (ahead : s.asyncFunctionAhead = true) :
    s.current.kind ≠ .eof := by
  intro eof
  simp [State.asyncFunctionAhead, Token.isIdentifier, eof] at ahead

instance : Meets loose (primary p) (primary q) where
  meets beside := by
    rw [primary_eq, primary_eq]
    refine .test_two asyncFunctionAhead_eq_of_twins kind_ne_eof_of_asyncFunctionAhead beside
      (fun _ => Meets.meets beside) ?_
    rcases beside.cases with ⟨ended, _⟩ | ⟨twin, _⟩
    · exact (overruns_of_operand beside.ends ended).meet
    · exact (operand_meets ⟨_, _, twin⟩).meets beside

/-! ## Members and calls -/

instance : Meets loose propertyName propertyName :=
  .looked (c := fun token => token.kind = .identifier || token.kind = .keyword)
    (fun same => by rw [Token.kind_eq_of_same same]) (fun eof => by simp [eof])
    fun _ beside here is => Meets.bump_named inferInstance beside
      fun value string => by simp [← here, string] at is

instance template_meets [View α] {yes yes' no no' : Parse α} [whenYes : Meets loose yes yes']
    [Meets loose no no'] [TakesLive yes] [TakesLive yes'] :
    Meets loose (current >>= fun token => if token.kind = .template then yes else no)
      (current >>= fun token => if token.kind = .template then yes' else no') := by
  have asks : ∀ {yes no : Parse α},
      (current >>= fun token => if token.kind = .template then yes else no) =
        current >>= fun token => if decide (token.kind = .template) = true then yes else no := by
    simp only [decide_eq_true_eq, implies_true]
  rw [asks, asks]
  exact .looked (c := fun token => decide (token.kind = .template))
    (fun same => by rw [Token.kind_eq_of_same same]) (fun eof => by simp [eof])
    fun _ beside _ _ => whenYes.meets beside

/-! ## Operators -/

theorem awaitsOperand_eq_of_twins (second : Twin (s.peek 1) (t.peek 1))
    (breaks : (s.peek 1).newlineBefore = (t.peek 1).newlineBefore) :
    s.awaitsOperand = t.awaitsOperand := by
  unfold State.awaitsOperand
  simp only [breaks, ← Token.kind_eq_of_same second.same]
  split
  all_goals first
    | rfl
    | next is => rw [Token.text_eq_of_same second.same (by simp [is])]

theorem unaryAhead?_eq_of_twins (first : Twin s.current t.current)
    (second : Twin (s.peek 1) (t.peek 1))
    (breaks : s.current.cutsOff = true → (s.peek 1).newlineBefore = (t.peek 1).newlineBefore) :
    s.unaryAhead? = t.unaryAhead? := by
  unfold State.unaryAhead?
  simp only [← Token.kind_eq_of_same first.same]
  split
  · next is => rw [Token.text_eq_of_same first.same (by simp [is])]
  · next is => rw [Token.text_eq_of_same first.same (by simp [is])]
  · next is =>
    rw [← Token.text_eq_of_same first.same (by simp [is])]
    by_cases await : s.current.text = "await"
    · rw [awaitsOperand_eq_of_twins second
        (breaks (by simp [Token.cutsOff, Token.isIdentifier, is, await]))]
    · simp [await]
  · rfl

theorem kind_ne_eof_of_unaryAhead? {op : UnaryOp} (ahead : s.unaryAhead? = some op) :
    s.current.kind ≠ .eof := by
  intro eof
  simp [State.unaryAhead?, eof] at ahead

theorem isUpdate_eq_of_same {a b : Token} (same : Token.same a b = true) :
    isUpdate a = isUpdate b := by
  unfold isUpdate
  rw [Token.isPunct_eq_of_same same, Token.isPunct_eq_of_same same]

theorem isUpdate_of_eof {token : Token} (eof : token.kind = .eof) : isUpdate token = false := by
  simp [isUpdate, isPunct_of_eof eof]

theorem text_eq_of_isUpdate {a b : Token} (same : Token.same a b = true)
    (update : isUpdate a = true) : a.text = b.text :=
  Token.text_eq_of_same same fun value string => by
    simp [isUpdate, Token.isPunct, string] at update

/-- An increment or decrement behind an operand, on the same line. -/
def withUpdate (operand : Expr Mark) : Parse (Expr Mark) := do
  let next ← current
  if isUpdate next && !next.newlineBefore then
    let _ ← bump
    finishExpr operand.outer.start (.update · (next.text = "++") false operand)
  else return operand

instance : Proceeds (withUpdate e) := by
  unfold withUpdate
  infer_instance

theorem withUpdate_met [Like e e'] (beside : Beside x y s t) {previous : Token}
    {others : List Token} (behind : Behind (previous :: others) x y s t) :
    Meet loose x y (withUpdate e s) (withUpdate e' t) := by
  refine .heed (c := fun token => isUpdate token && !token.newlineBefore) beside behind
    (fun same breaks => ?_) (fun eof => by simp [isUpdate_of_eof eof]) (fun twin is => ?_)
    (Meets.meets beside)
  · rw [← isUpdate_eq_of_same same]
    cases update : isUpdate s.current
    · rfl
    · simp only [isUpdate, Bool.or_eq_true] at update
      rw [breaks (by simp [Token.heedsBreak, update])]
  · rw [← text_eq_of_isUpdate twin.same (Bool.and_eq_true_iff.1 is).1]
    exact Meets.meets beside

/-- An operand with an increment or decrement behind it. -/
def updated (p : Productions) : Parse (Expr Mark) := do
  withUpdate (← chain p)

instance : Meets loose (updated p) (updated q) where
  meets beside := (Meets.meets beside).bind_strict fun _ _ _ _ first first' like here => by
    obtain ⟨_, _, behind⟩ := beside.further here (Steps.steps first).suffix
      (Steps.steps first').suffix (Takes.takes beside.ends first)
    exact withUpdate_met here behind

/-- An operand behind the given operator, or behind an update. -/
def signed (p : Productions) (token : Token) (op? : Option UnaryOp) : Parse (Expr Mark) :=
  match op? with
  | some op => do
    let _ ← bump
    let argument ← p.unary
    finishExpr token.span.start (.unary · op argument)
  | none =>
    if isUpdate token then do
      let _ ← bump
      let argument ← p.unary
      finishExpr token.span.start (.update · (token.text = "++") true argument)
    else updated p

omit [p.Stepping] [p.Taking] in
theorem unary_eq (p : Productions) (s : State) :
    unary p s = signed p s.current s.unaryAhead? s :=
  rfl

theorem signed_met (beside : Beside x y s t) (op? : Option UnaryOp) :
    Meet loose x y (signed p s.current op? s) (signed q t.current op? t) := by
  unfold signed
  cases op? with
  | some op => exact Meets.meets beside
  | none =>
    refine .test isUpdate_eq_of_same isUpdate_of_eof beside fun twin is => ?_
    rw [← text_eq_of_isUpdate twin.same is]
    exact Meets.meets beside

instance : Meets loose (unary p) (unary q) where
  meets {x y s t} beside := by
    rw [unary_eq, unary_eq]
    rcases beside.two with ⟨few, few'⟩ | ⟨first, second, breaks⟩
    · -- an operator and its operand are two tokens at least
      cases ahead : s.unaryAhead? with
      | some op =>
        exact (Overruns.of_bump beside.ends few (kind_ne_eof_of_unaryAhead? ahead)).meet
      | none =>
        cases ahead' : t.unaryAhead? with
        | some op =>
          exact (Overruns.of_bump beside.ends' few' (kind_ne_eof_of_unaryAhead? ahead')).meet_right
        | none => exact signed_met beside none
    · rw [unaryAhead?_eq_of_twins first second breaks]
      exact signed_met beside _

/-- The mode decides only whether the word `in` is an operator. -/
theorem ofToken?_of_same (noIn noIn' : Bool) {a b : Token} (same : Token.same a b = true) :
    Infix.ofToken? noIn a = Infix.ofToken? noIn' b ∨
      (a.isKeyword "in" = true ∧ noIn ≠ noIn' ∧
        (if noIn then Infix.ofToken? noIn a = none else Infix.ofToken? noIn' b = none)) := by
  unfold Infix.ofToken? Token.isKeyword
  rw [← Token.kind_eq_of_same same]
  split
  · next is =>
    rw [Token.text_eq_of_same same (by simp [is])]
    exact .inl rfl
  · next is =>
    rw [← Token.text_eq_of_same same (by simp [is])]
    by_cases isIn : a.text = "in"
    · cases noIn <;> cases noIn' <;> simp [isIn, is]
    · simp [isIn]
  · exact .inl rfl

theorem State.Halted.ofToken? (halted : s.Halted) : Infix.ofToken? s.noIn s.current = none := by
  have word := halted.word
  simp only [Token.isKeyword, Bool.and_eq_true, decide_eq_true_eq] at word
  simp [Infix.ofToken?, word, halted.mode]

/-- One more operator of at least the given power, if there is one. -/
def linkWith (p : Productions) (least : Nat) (left : Expr Mark) (op? : Option Infix) :
    Parse (Option (Expr Mark)) :=
  match op? with
  | some op =>
    if op.power < least then return none
    else do
      let _ ← bump
      let right ← p.binary op.rightLeast
      return some (← finishExpr left.outer.start (op.build left right))
  | none => return none

omit [p.Taking] [q.Taking] in
theorem linkWith_met [Like e e'] {least : Nat} {op? : Option Infix} :
    Meets true (linkWith p least e op?) (linkWith q least e' op?) := by
  unfold linkWith
  split <;> infer_instance

omit [p.Stepping] [p.Taking] in
theorem binaryLink_eq (least : Nat) :
    binaryLink p least e s = linkWith p least e (Infix.ofToken? s.noIn s.current) s :=
  rfl

omit [p.Taking] in
/-- A link that is not added leaves the state as it is. -/
theorem binaryLink_stays_or_takes {least : Nat} {a : Option (Expr Mark)} (ends : s.Ends)
    (run : binaryLink p least e s = .ok a s') :
    (a = none ∧ s = s') ∨ s'.rest.length + 1 ≤ s.rest.length := by
  cases a with
  | none => exact .inl ⟨rfl, (binaryLink_eq_none.1 run).1⟩
  | some longer =>
    obtain ⟨_, _, middle, found, _, operand, _, rfl⟩ := binaryLink_eq_some.1 run
    have live : s.current.kind ≠ .eof := by
      intro eof
      simp [Infix.ofToken?, eof] at found
    exact .inr ((Nat.add_le_add_right (Steps.steps operand).length_le 1).trans
      (State.length_next (ends.live live)).le)

omit [p.Stepping] [p.Taking] in
theorem eq_of_binaryLink {least : Nat} {a : Option (Expr Mark)}
    (none : Infix.ofToken? s.noIn s.current = none) (run : binaryLink p least e s = .ok a s') :
    s = s' := by
  rw [binaryLink_eq, none] at run
  exact (pure_eq_ok.1 run).2

instance {least : Nat} [Like e e'] : Meets true (binaryLink p least e) (binaryLink q least e') where
  meets {x y s t} beside a b s' t' run run' fine fine' := by
    rcases beside.cases with ⟨ended, ended'⟩ | ⟨twin, _⟩
    · rcases binaryLink_stays_or_takes beside.ends run with ⟨rfl, rfl⟩ | taken
      · rcases binaryLink_stays_or_takes beside.ends' run' with ⟨rfl, rfl⟩ | taken
        · exact .inl ⟨inferInstance, beside⟩
        · exact absurd taken (fine'.not_taken ended')
      · exact absurd taken (fine.not_taken ended)
    rcases ofToken?_of_same s.noIn t.noIn twin.same with same | ⟨word, modes, none⟩
    · rw [binaryLink_eq] at run run'
      rw [← same] at run'
      exact linkWith_met.meets beside run run' fine fine'
    · -- the word `in` bars one of the two
      have modes' : s'.noIn ≠ t'.noIn := by
        rwa [(Steps.steps run).mode, (Steps.steps run').mode]
      have inner := twin.inner word
      cases mode : s.noIn with
      | true =>
        rw [mode, if_pos rfl] at none
        obtain rfl := eq_of_binaryLink (mode ▸ none) run
        exact .inr ⟨rfl, modes', .inl ⟨mode, word, inner.1⟩⟩
      | false =>
        rw [mode, if_neg (by simp)] at none
        obtain rfl := eq_of_binaryLink none run'
        rw [mode, ne_eq, Bool.false_eq, Bool.not_eq_false] at modes
        exact .inr ⟨rfl, modes',
          .inr ⟨modes, Token.isKeyword_eq_of_same twin.same _ ▸ word, inner.2⟩⟩

omit [p.Stepping] [p.Taking] in
theorem Halts.binaryLink {least bound : Nat} :
    Halts true (extendUpTo (Grammar.binaryLink p least) bound e) where
  halts {s a s'} halted run := by
    cases bound with
    | zero => exact absurd run extendUpTo_zero
    | succ bound =>
      rcases extendUpTo_succ.1 run with ⟨stops, _⟩ | ⟨_, _, one, _⟩
      · obtain ⟨rfl, _⟩ := binaryLink_eq_none.1 stops
        exact ⟨rfl, halted⟩
      · obtain ⟨_, _, _, found, _⟩ := binaryLink_eq_some.1 one
        simp [halted.ofToken?] at found

instance {least : Nat} : Meets true (binary p least) (binary q least) := by
  have links : ∀ pair : Pair (Expr Mark), Meets true (extend (binaryLink p least) pair.left)
      (extend (binaryLink q least) pair.right) := fun pair =>
    .extend_of (fun _ => inferInstance) (fun _ _ _ => ⟨.binaryLink, .binaryLink⟩) pair.like
  unfold binary
  infer_instance

/-! ## Arrow functions -/

/-- An arrow function behind the word `async`, if that stands in front. -/
def arrowTail (p : Productions) (start : Nat) : Parse (Expr Mark) := do
  let params ← if ← atName then pure [← name] else params p
  let _ ← expectPunct "=>"
  let body ← withNoIn false (arrowBody p)
  finishExpr start (.function · none params body true)

instance : Proceeds (arrowTail p start) := by
  unfold arrowTail
  dsimp only
  infer_instance

instance : Takes 1 (arrowTail p start) := by
  unfold arrowTail
  dsimp only
  infer_instance

instance : Meets loose (arrowTail p start) (arrowTail q start') := by
  unfold arrowTail
  dsimp only
  infer_instance

/-- Is the word `async` in front of an arrow function? -/
def State.atAsyncArrow (s : State) : Bool :=
  s.current.isIdentifier "async" && !(s.peek 1).isPunct "=>"

theorem kind_ne_eof_of_atAsyncArrow (async : s.atAsyncArrow = true) : s.current.kind ≠ .eof := by
  intro eof
  simp [State.atAsyncArrow, Token.isIdentifier, eof] at async

omit [p.Stepping] [p.Taking] in
theorem arrowFunction_eq (p : Productions) (s : State) :
    arrowFunction p s =
      (if s.atAsyncArrow = true then bump >>= fun _ => arrowTail p s.current.span.start
        else arrowTail p s.current.span.start) s :=
  rfl

instance : Meets loose (arrowFunction p) (arrowFunction q) where
  meets beside := by
    rw [arrowFunction_eq, arrowFunction_eq]
    refine .test_two (fun first second _ => ?_) kind_ne_eof_of_atAsyncArrow beside
      (fun _ => Meets.meets beside) (Meets.meets beside)
    unfold State.atAsyncArrow
    rw [Token.isIdentifier_eq_of_same first.same, Token.isPunct_eq_of_same second.same]

/-! ### Looking for an arrow -/

theorem opens_eq_of_same {a b : Token} (same : Token.same a b = true) : a.opens = b.opens := by
  simp only [Token.opens, Token.isPunct_eq_of_same same]

theorem closes_eq_of_same {a b : Token} (same : Token.same a b = true) : a.closes = b.closes := by
  simp only [Token.closes, Token.isPunct_eq_of_same same]

theorem net_take_eq_of_abreast {before as bs : List Token} (abreast : Token.Abreast before as bs)
    (n : Nat) : net (as.take n) = net (bs.take n) := by
  induction abreast generalizing n with
  | nil => rfl
  | cons same _ _ _ _ ih =>
    cases n with
    | zero => rfl
    | succ n =>
      simp only [List.take_succ_cons, net, Token.turn, opens_eq_of_same same,
        closes_eq_of_same same, ih n]

/-- If the brackets are closed inside the rows, with a token behind them, then an arrow stands
behind them in both rows or in none. -/
theorem closesIntoArrow_eq_of_abreast {before as bs : List Token} {stop stop' : Token}
    (abreast : Token.Abreast before as bs) {depth n : Nat} (deep : 1 ≤ depth)
    (inside : n < as.length) (closed : depth + net (as.take n) ≤ 0) :
    closesIntoArrow stop depth (as ++ x) = closesIntoArrow stop' depth (bs ++ y) := by
  induction abreast generalizing depth n with
  | nil => cases inside
  | @cons before as bs a b same _ _ _ rest ih =>
    cases n with
    | zero =>
      simp only [List.take_zero, net] at closed
      omega
    | succ n =>
      simp only [List.take_succ_cons, net, Token.turn] at closed
      simp only [List.length_cons] at inside
      simp only [List.cons_append, closesIntoArrow, ← opens_eq_of_same same,
        ← closes_eq_of_same same]
      cases opens : a.opens
      · cases closes : a.closes
        · simp only [opens, closes, Bool.false_eq_true, if_false] at closed ⊢
          exact ih deep (Nat.lt_of_succ_lt_succ inside) (by omega)
        · simp only [opens, closes, Bool.false_eq_true, if_false, if_true] at closed ⊢
          by_cases last : depth ≤ 1
          · rw [if_pos last, if_pos last]
            cases rest with
            | nil => exact absurd (Nat.lt_of_succ_lt_succ inside) (Nat.not_lt_zero n)
            | @cons _ _ _ c d same' breaks =>
              simp only [List.cons_append, List.headD_cons, ← Token.isPunct_eq_of_same same']
              cases arrow : c.isPunct "=>"
              · rfl
              · rw [breaks (by simp [Token.heedsBreak, arrow])]
          · rw [if_neg last, if_neg last]
            exact ih (by omega) (Nat.lt_of_succ_lt_succ inside) (by omega)
      · simp only [opens, if_true] at closed ⊢
        exact ih (by omega) (Nat.lt_of_succ_lt_succ inside) (by omega)

/-- The number of tokens in front of the parameters of an arrow function. -/
def State.arrowSkip (s : State) : Nat :=
  if s.current.isIdentifier "async" && !(s.peek 1).newlineBefore &&
    ((s.peek 1).kind = .identifier || (s.peek 1).isPunct "(") then 1 else 0

theorem arrowAhead_eq (s : State) :
    s.arrowAhead =
      if (s.peek s.arrowSkip).kind = .identifier then (s.peek (s.arrowSkip + 1)).isPunct "=>"
      else if (s.peek s.arrowSkip).isPunct "(" then
        closesIntoArrow s.stop 0 (s.rest.drop s.arrowSkip)
      else false :=
  rfl

theorem arrowSkip_le (s : State) : s.arrowSkip ≤ 1 := by
  unfold State.arrowSkip
  split <;> decide

theorem arrowSkip_eq (beside : Beside x y s t) (three : x.length + 3 ≤ s.rest.length) :
    s.arrowSkip = t.arrowSkip := by
  rcases beside.two with ⟨few, _⟩ | ⟨first, second, breaks⟩
  · omega
  unfold State.arrowSkip
  rw [← Token.isIdentifier_eq_of_same first.same, ← Token.kind_eq_of_same second.same,
    ← Token.isPunct_eq_of_same second.same]
  cases async : s.current.isIdentifier "async"
  · rfl
  · rw [breaks (by simp [Token.cutsOff, async])]

/-- The parameters of an arrow function end inside the row, with a token behind them. -/
def State.ClosesInside (x : List Token) (s : State) : Prop :=
  (s.peek s.arrowSkip).isPunct "(" = true → ∃ n, s.arrowSkip + n + 1 + x.length < s.rest.length ∧
    net ((s.rest.drop s.arrowSkip).take (n + 1)) ≤ 0

theorem peek_of_drop {n : Nat} {token : Token} {rest : List Token}
    (drop : s.rest.drop n = token :: rest) : s.peek n = token := by
  rw [State.peek, List.getD_eq_getElem?_getD, ← List.head?_drop, drop]
  rfl

theorem opens_of_isPunct {token : Token} (paren : token.isPunct "(" = true) :
    token.opens = true := by
  simp [Token.opens, paren]

theorem closesIntoArrow_eq_of_closesInside (beside : Beside x y s t)
    (paren : (s.peek s.arrowSkip).isPunct "(" = true) (closes : s.ClosesInside x) :
    closesIntoArrow s.stop 0 (s.rest.drop s.arrowSkip) =
      closesIntoArrow t.stop 0 (t.rest.drop s.arrowSkip) := by
  obtain ⟨n, inside, closed⟩ := closes paren
  obtain ⟨_, as, bs, abreast, rest, rest'⟩ := beside.drop (n := s.arrowSkip) (by omega)
  have length : n + 1 < as.length := by
    have whole := congrArg List.length rest
    rw [List.length_drop, List.length_append] at whole
    omega
  rw [rest, List.take_append_of_le_length (Nat.le_of_lt length)] at closed
  rw [rest, rest']
  cases abreast with
  | nil => cases length
  | cons same _ _ _ more =>
    have opens := opens_of_isPunct (peek_of_drop rest ▸ paren)
    simp only [List.take_succ_cons, net, Token.turn, opens, if_true] at closed
    simp only [List.cons_append, closesIntoArrow, ← opens_eq_of_same same, opens, if_true]
    exact closesIntoArrow_eq_of_abreast more (Nat.le_refl 1) (Nat.lt_of_succ_lt_succ length)
      (by simpa using closed)

theorem arrowAhead_eq_of_closesInside (beside : Beside x y s t)
    (three : x.length + 3 ≤ s.rest.length) (closes : s.ClosesInside x) :
    s.arrowAhead = t.arrowAhead := by
  rw [arrowAhead_eq, arrowAhead_eq, ← arrowSkip_eq beside three]
  have few := arrowSkip_le s
  have head := beside.peek (i := s.arrowSkip) (by omega)
  have next := beside.peek (i := s.arrowSkip + 1) (by omega)
  rw [← Token.kind_eq_of_same head.same, ← Token.isPunct_eq_of_same next.same,
    ← Token.isPunct_eq_of_same head.same]
  split
  · rfl
  split
  · next paren => exact closesIntoArrow_eq_of_closesInside beside paren closes
  · rfl

/-- What closes inside one row does so in the other. -/
theorem closesInside_of_beside (beside : Beside x y s t) (three : x.length + 3 ≤ s.rest.length)
    (closes : t.ClosesInside y) : s.ClosesInside x := by
  have skip := arrowSkip_eq beside three
  intro paren
  have few := arrowSkip_le s
  have lengths := beside.length_add
  have head := beside.peek (i := s.arrowSkip) (by omega)
  rw [Token.isPunct_eq_of_same head.same, skip] at paren
  obtain ⟨n, inside, closed⟩ := closes paren
  rw [← skip] at inside closed
  refine ⟨n, by omega, ?_⟩
  obtain ⟨_, as, bs, abreast, rest, rest'⟩ := beside.drop (n := s.arrowSkip) (by omega)
  have length : n + 1 < bs.length := by
    have whole := congrArg List.length rest'
    rw [List.length_drop, List.length_append] at whole
    omega
  rw [rest', List.take_append_of_le_length (Nat.le_of_lt length)] at closed
  rw [rest, List.take_append_of_le_length (Nat.le_of_lt (abreast.length_eq ▸ length)),
    net_take_eq_of_abreast abreast]
  exact closed

omit [p.Stepping] [p.Taking] in
/-- The parameters start behind the word `async`, if it stands in front. -/
theorem exists_arrowTail_of_arrowFunction (ends : s.Ends)
    (paren : (s.peek s.arrowSkip).isPunct "(" = true) (run : arrowFunction p s = .ok e s') :
    ∃ r : State, r.rest = s.rest.drop s.arrowSkip ∧ r.Ends ∧ r.current.isPunct "(" = true ∧
      arrowTail p s.current.span.start r = .ok e s' := by
  rw [arrowFunction_eq] at run
  unfold State.arrowSkip at paren ⊢
  split at paren
  · next async =>
    rw [if_pos async]
    have word : s.atAsyncArrow = true := by
      simp_all [State.atAsyncArrow, Token.isPunct]
    rw [if_pos word] at run
    replace run := bump_bind.symm.trans run
    refine ⟨s.next, ?_, ends.proceeds (State.Steps.next s).proceeds, ?_, run⟩
    · obtain ⟨rest, _⟩ := s
      cases rest <;> rfl
    · rw [State.current_next]
      exact paren
  · next plain =>
    rw [if_neg plain]
    have paren : s.current.isPunct "(" = true := paren
    have word : ¬ s.atAsyncArrow = true := by
      simp_all [State.atAsyncArrow, Token.isPunct, Token.isIdentifier]
    rw [if_neg word] at run
    exact ⟨s, rfl, ends, paren, run⟩

omit [p.Taking] in
theorem closesInside_of_arrowFunction [p.Netting] (ends : s.Ends)
    (run : arrowFunction p s = .ok e s') (fine : s'.Fine x) : s.ClosesInside x := by
  intro paren
  obtain ⟨r, rest, ends', paren', found⟩ := exists_arrowTail_of_arrowFunction ends paren run
  have noName : r.current.kind ≠ .identifier := by
    simp only [Token.isPunct, Bool.and_eq_true, decide_eq_true_eq] at paren'
    simp [paren'.1]
  unfold arrowTail at found
  dsimp only at found
  rw [atName_bind, decide_eq_false noName] at found
  obtain ⟨_, behind, inside, found⟩ := bind_eq_ok.1 found
  obtain ⟨_, _, arrow, found⟩ := bind_eq_ok.1 found
  obtain ⟨isArrow, _, rfl⟩ := expectPunct_eq_ok.1 arrow
  have taken : behind.rest.length + 1 ≤ r.rest.length := Takes.takes ends' inside
  have live := (ends'.proceeds (Steps.steps inside).proceeds).live_of_isPunct isArrow
  have one := State.length_next live
  have further := (Proceeds.proceeds found).length_le
  have nets : r.Nets 0 behind := Nets.nets inside
  rcases nets with ended | ⟨read, split, closed⟩
  · exact absurd ended live
  · have length := congrArg List.length split
    rw [List.length_append] at length
    have whole := congrArg List.length rest
    rw [List.length_drop] at whole
    have inRow := fine.length_le
    obtain ⟨n, counted⟩ : ∃ n, read.length = n + 1 := Nat.exists_eq_add_of_le' (by omega)
    refine ⟨n, by omega, ?_⟩
    rw [← rest, split, List.take_append_of_le_length (by omega), ← counted, List.take_length]
    exact closed.whole

theorem three_le_of_arrowFunction (ends : s.Ends) (run : arrowFunction p s = .ok e s')
    (fine : s'.Fine x) : x.length + 3 ≤ s.rest.length := by
  have taken : s'.rest.length + 3 ≤ s.rest.length := Takes.takes ends run
  exact (Nat.add_le_add_right fine.length_le 3).trans taken

/-- Where only one of the two looks ahead to an arrow, it stands past the end of the row. -/
theorem overruns_of_arrowAhead_ne [p.Netting] (beside : Beside x y s t)
    (differ : s.arrowAhead ≠ t.arrowAhead) :
    Overruns x (arrowFunction p s) ∧ Overruns y (arrowFunction p t) := by
  constructor
  · intro e s' run fine
    exact differ (arrowAhead_eq_of_closesInside beside
      (three_le_of_arrowFunction beside.ends run fine)
      (closesInside_of_arrowFunction beside.ends run fine))
  · intro e t' run fine
    have lengths := beside.length_add
    have three := three_le_of_arrowFunction beside.ends' run fine
    have three : x.length + 3 ≤ s.rest.length := by omega
    exact differ (arrowAhead_eq_of_closesInside beside three
      (closesInside_of_beside beside three (closesInside_of_arrowFunction beside.ends' run fine)))

/-! ## Assignments -/

/-- The operand of `yield`, if it has one. -/
def yieldTail (p : Productions) (start : Nat) : Parse (Expr Mark) := do
  if !yieldsNothing (← current) then
    let _ ← p.assignment
  finishExpr start .hidden

theorem yieldsNothing_eq_of_same {a b : Token} (same : Token.same a b = true)
    (breaks : a.newlineBefore = b.newlineBefore) : yieldsNothing a = yieldsNothing b := by
  simp only [yieldsNothing, closes_eq_of_same same, Token.isPunct_eq_of_same same,
    Token.kind_eq_of_same same, breaks]

omit [p.Stepping] [q.Stepping] in
theorem yieldTail_met {before : List Token} (beside : Beside x y s t)
    (behind : Behind before x y s t) (heeds : ∀ token, Token.heedsBreak before token = true) :
    Meet true x y (yieldTail p start s) (yieldTail q start' t) :=
  .heed (c := (!yieldsNothing ·)) beside behind
    (fun same breaks => by rw [yieldsNothing_eq_of_same same (breaks (heeds _))])
    (fun eof => by simp [yieldsNothing, eof]) (fun _ _ => Meets.meets beside) (Meets.meets beside)

theorem yieldExpression_met (beside : Beside x y s t)
    (word : s.current.isKeyword "yield" = true) :
    Meet true x y (yieldExpression p s) (yieldExpression q t) := by
  obtain ⟨before, behind⟩ := beside.rows
  refine .take beside behind (fun eof => by simp [isKeyword_of_eof eof] at word)
    fun _ beside behind => ?_
  rw [eatPunct_bind_eq, eatPunct_bind_eq]
  refine .heed (c := (·.isPunct "*")) beside behind
    (fun same _ => Token.isPunct_eq_of_same same "*") isPunct_of_eof (fun _ star => ?_) ?_
  · exact .take beside behind (fun eof => by simp [isPunct_of_eof eof] at star)
      fun _ beside behind => yieldTail_met beside behind
        fun token => by simp [Token.heedsBreak, star, word]
  · exact yieldTail_met beside behind
      fun token => by simp [Token.heedsBreak, Token.cutsOff, word]

/-- An assignment to what has been read, if an operator follows. -/
def assignTo (p : Productions) (target : Expr Mark) : Parse (Expr Mark) := do
  let token ← current
  if token.kind = .punctuator && assignmentOperators.contains token.text then
    let _ ← bump
    let value ← p.assignment
    finishExpr target.outer.start (.assignment · token.text target value)
  else return target

instance : Proceeds (assignTo p e) := by
  unfold assignTo
  infer_instance

omit [p.Stepping] [p.Taking] in
instance : Halts true (assignTo p e) :=
  .of_stays fun halted run => by
    replace run := current_bind.symm.trans run
    rw [if_neg (by simp [halted.kind])] at run
    obtain ⟨rfl, rfl⟩ := pure_eq_ok.1 run
    exact ⟨rfl, rfl, rfl⟩

instance [Like e e'] : Meets true (assignTo p e) (assignTo q e') :=
  .looked (c := fun token => token.kind = .punctuator && assignmentOperators.contains token.text)
    (fun same => Token.test_eq_of_same same (by simp) (assignmentOperators.contains ·))
    (fun eof => by simp [eof])
    fun pair beside _ is => by
      rw [← pair.text fun value string => by simp [string] at is]
      exact Meets.meets beside

/-- An assignment that is no arrow function. -/
def plainAssignment (p : Productions) : Parse (Expr Mark) := do
  if ← atKeyword "yield" then yieldExpression p
  else assignTo p (← conditional p)

instance : Meets true (plainAssignment p) (plainAssignment q) where
  meets beside := .test (Token.isKeyword_eq_of_same · "yield") isKeyword_of_eof beside
    fun _ word => yieldExpression_met beside word

instance [p.Netting] [q.Netting] : Meets true (assignment p) (assignment q) where
  meets {x y s t} beside := by
    change Meet true x y
      ((if s.arrowAhead = true then arrowFunction p else plainAssignment p) s)
      ((if t.arrowAhead = true then arrowFunction q else plainAssignment q) t)
    by_cases same : s.arrowAhead = t.arrowAhead
    · exact .ite same (fun _ => Meets.meets beside) fun _ => Meets.meets beside
    · exact .ite_overruns (fun _ => (overruns_of_arrowAhead_ne beside same).1)
        (fun _ => (overruns_of_arrowAhead_ne beside same).2) (Meets.meets beside)

end Productions

end TidyScript.Grammar
