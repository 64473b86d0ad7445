import TidyScript.Proofs.Grammar.ExpressionMeeting

/-!
# Statements side by side

The productions of statements stay abreast, and with them all productions of every two depths. The
main statement is that two runs of the production for statements, from states side by side, end side
by side and read statements that are the same without their marks.
-/

namespace TidyScript.Grammar

-- productions are long rows of steps
set_option synthInstance.maxSize 1000000000

variable {α β : Type} {p q : Productions} {s s' t t' : State} {x y : List Token} {loose : Bool}

section Productions

variable [p.Stepping] [q.Stepping] [p.Taking] [q.Taking] [p.Netting] [q.Netting]
  [Productions.Meeting p q] {e e' : Expr Mark} {start start' : Nat}

instance : Asks atCaseEnd where
  meets := ⟨fun beside =>
    Meets.test_no (c := fun token => token.isKeyword "case" || token.isKeyword "default" ||
        token.isPunct "\x7d")
      (fun same => by
        rw [Token.isKeyword_eq_of_same same, Token.isKeyword_eq_of_same same,
          Token.isPunct_eq_of_same same])
      beside⟩

/-! ## Declarations -/

/-- The word that introduces a declaration is no string. -/
theorem declaration_met {inHead : Bool} (beside : Beside x y s t)
    (noString : ∀ value, s.current.kind ≠ .string value) :
    Meet inHead x y (declaration p inHead s) (declaration q inHead t) := by
  unfold declaration
  dsimp only
  refine Meets.bump_named (fun pair => ?_) beside noString
  rw [pair.text]
  cases inHead
  · simp only [Bool.not_false, if_true]
    infer_instance
  · simp only [Bool.not_true, Bool.false_eq_true, if_false]
    infer_instance

/-! ## Loops -/

instance {head head' : Option (ForHead Mark)} [like : Like head head'] :
    Meets loose (forInit head) (forInit head') := by
  match head, head', like with
  | none, none, _ => exact inferInstanceAs (Meets loose (pure none) (pure none))
  | some (.declaration r), some (.declaration r'), like =>
    have inner : Like r r' := ⟨ForHead.declaration.inj (Option.some.inj like.alike)⟩
    exact inferInstanceAs (Meets loose (pure (some r)) (pure (some r')))
  | some (.pattern e), some (.pattern e'), like =>
    have inner : Like e e' := ⟨ForHead.pattern.inj (Option.some.inj like.alike)⟩
    exact inferInstanceAs (Meets loose
      (pushStmt e.outer (.expression · e) >>= fun r => pure (some r))
      (pushStmt e'.outer (.expression · e') >>= fun r => pure (some r)))
  | some (.declaration _), some (.pattern _), like => cases Option.some.inj like.alike
  | some (.pattern _), some (.declaration _), like => cases Option.some.inj like.alike
  | none, some _, like => cases like.alike
  | some _, none, like => cases like.alike

theorem declarationAhead_eq_of_same (same : Token.same s.current t.current = true) :
    s.declarationAhead = t.declarationAhead := by
  simp only [State.declarationAhead, Token.isKeyword_eq_of_same same]

theorem kind_of_declarationAhead (ahead : s.declarationAhead = true) :
    s.current.kind = .keyword := by
  simp only [State.declarationAhead, Token.isKeyword, Bool.or_eq_true, Bool.and_eq_true,
    decide_eq_true_eq] at ahead
  rcases ahead with (ahead | ahead) | ahead <;> exact ahead.1

/-- The head of a `for` that is there. -/
def headAhead (p : Productions) (declares : Bool) : Parse (Option (ForHead Mark)) :=
  if declares = true then do return some (.declaration (← declaration p true))
  else do return some (.pattern (← expression p))

omit [p.Stepping] [p.Taking] [p.Netting] in
theorem forHead_eq (p : Productions) (s : State) :
    forHead p s =
      (if s.current.isPunct ";" = true then pure none else headAhead p s.declarationAhead) s :=
  rfl

omit [p.Netting] in
theorem overruns_of_headAhead (ends : s.Ends) (ended : s.rest = x) :
    Overruns x (headAhead p s.declarationAhead s) :=
  .ite (fun ahead => .of_live ends ended (by simp [kind_of_declarationAhead ahead]))
    fun _ => .of_takes ends ended

instance : Meets true (forHead p) (forHead q) where
  meets beside := by
    rw [forHead_eq, forHead_eq]
    rcases beside.cases with ⟨ended, ended'⟩ | ⟨twin, _⟩
    · exact .ite_overruns_no (fun _ => overruns_of_headAhead beside.ends ended)
        (fun _ => overruns_of_headAhead beside.ends' ended') (Meets.meets beside)
    · refine .ite (Token.isPunct_eq_of_same twin.same ";") (fun _ => Meets.meets beside) fun _ =>
        .ite (declarationAhead_eq_of_same twin.same) (fun ahead => ?_) fun _ => Meets.meets beside
      exact (declaration_met beside (by simp [kind_of_declarationAhead ahead])).bind
        (fun _ _ => ⟨inferInstance, inferInstance⟩) fun _ _ _ _ _ _ _ beside => Meets.meets beside

instance {head : Option (ForHead Mark)} {token : Token} :
    TakesLive (forRest p start head token) := by
  unfold forRest
  split <;> infer_instance

instance {head : Option (ForHead Mark)} : Takes 1 (current >>= forRest p start head) :=
  .looked (fun _ _ => inferInstance) fun token eof => by
    unfold forRest
    simp only [isKeyword_of_eof eof, Token.isIdentifier, eof, reduceCtorEq, decide_false,
      Bool.false_and, Bool.false_eq_true, if_false]
    split <;> infer_instance

instance {head head' : Option (ForHead Mark)} [like : Like head head'] :
    Meets loose (current >>= forRest p start head) (current >>= forRest q start' head') := by
  refine .current_taken inferInstance fun pair => ?_
  match head, head', like with
  | none, none, _ =>
    exact inferInstanceAs (Meets loose (forTail p start none) (forTail q start' none))
  | some left, some left', like =>
    have inner : Like left left' := ⟨Option.some.inj like.alike⟩
    simp only [forRest, pair.isKeyword, pair.isIdentifier]
    infer_instance
  | none, some _, like => cases like.alike
  | some _, none, like => cases like.alike

/-! ## Jumps -/

/-- Does a `return` have no value in front of the token? -/
def returnsNothing (token : Token) : Bool :=
  token.isPunct ";" || token.isPunct "\x7d" || token.kind = .eof || token.newlineBefore

theorem returnsNothing_eq_of_same {a b : Token} (same : Token.same a b = true)
    (breaks : a.newlineBefore = b.newlineBefore) : returnsNothing a = returnsNothing b := by
  simp only [returnsNothing, Token.isPunct_eq_of_same same, Token.kind_eq_of_same same, breaks]

/-- The token that has been taken lets the grammar heed a line break behind it. -/
theorem heedsBreak_of_cutsOff {previous : Token} (cuts : previous.cutsOff = true)
    (others : List Token) (token : Token) :
    Token.heedsBreak (previous :: others) token = true := by
  simp [Token.heedsBreak, cuts]

/-- A `return` behind its word. -/
def returnTail (p : Productions) (start : Nat) (bare : Bool) : Parse (Stmt Mark) :=
  if (!bare) = true then do
    let value ← expression p
    endStatement
    finishStmt start (.returning · (some value))
  else do
    endStatement
    finishStmt start (.returning · none)

instance {bare : Bool} : Proceeds (returnTail p start bare) := by
  unfold returnTail
  infer_instance

omit [p.Stepping] [p.Taking] [p.Netting] in
theorem returning_eq (p : Productions) :
    returning p = bump >>= fun word => current >>= fun token =>
      returnTail p word.span.start (returnsNothing token) := by
  unfold returning returnTail returnsNothing
  simp only [Bool.not_eq_true', ← Bool.not_eq_true, ite_not]
  rfl

theorem returning_met (beside : Beside x y s t) (word : s.current.isKeyword "return" = true) :
    Meet loose x y (returning p s) (returning q t) := by
  rw [returning_eq, returning_eq]
  obtain ⟨before, behind⟩ := beside.rows
  refine .take beside behind (fun eof => by simp [isKeyword_of_eof eof] at word)
    fun _ beside behind => ?_
  refine .heed (c := (!returnsNothing ·)) beside behind (fun same breaks => congrArg not ?_)
    (fun eof => by simp [returnsNothing, eof]) (fun _ _ => Meets.meets beside) (Meets.meets beside)
  exact returnsNothing_eq_of_same same
    (breaks (heedsBreak_of_cutsOff (by simp [Token.cutsOff, word]) _ _))

end Productions

/-- A jump behind its word. -/
def jumpTail (start : Nat) (word : String) (labeled : Bool) : Parse (Stmt Mark) :=
  if labeled = true then do
    let label ← bump
    endStatement
    finishStmt start fun mark =>
      if word = "break" then .breaking mark (some label.text)
      else .continuing mark (some label.text)
  else do
    endStatement
    finishStmt start fun mark =>
      if word = "break" then .breaking mark none else .continuing mark none

instance {start : Nat} {word : String} {labeled : Bool} :
    Proceeds (jumpTail start word labeled) := by
  unfold jumpTail
  infer_instance

theorem jump_eq :
    jump = bump >>= fun word => current >>= fun token =>
      jumpTail word.span.start word.text (token.kind = .identifier && !token.newlineBefore) :=
  rfl

instance {word : String} {n n' : Option String} {m m' : Mark} [like : Like n n'] :
    Like (if word = "break" then Stmt.breaking m n else .continuing m n)
      (if word = "break" then .breaking m' n' else .continuing m' n') := by
  obtain rfl := like.strings
  split <;> exact ⟨rfl⟩

theorem jump_met (beside : Beside x y s t)
    (word : s.current.isKeyword "break" = true ∨ s.current.isKeyword "continue" = true) :
    Meet loose x y (jump s) (jump t) := by
  have isWord : s.current.kind = .keyword := by
    simp only [Token.isKeyword, Bool.and_eq_true, decide_eq_true_eq] at word
    exact word.elim (·.1) (·.1)
  rw [jump_eq]
  obtain ⟨before, behind⟩ := beside.rows
  refine .take beside behind (by simp [isWord]) fun twin beside behind => ?_
  rw [← Token.text_eq_of_same twin.same (by simp [isWord])]
  refine .heed (c := fun token => token.kind = .identifier && !token.newlineBefore) beside behind
    (fun same breaks => ?_) (fun eof => by simp [eof]) (fun _ labeled => ?_) (Meets.meets beside)
  · have cuts : s.current.cutsOff = true := by
      rcases word with word | word <;> simp [Token.cutsOff, word]
    rw [Token.kind_eq_of_same same, breaks (heedsBreak_of_cutsOff cuts _ _)]
  · have isName := of_decide_eq_true (Bool.and_eq_true_iff.1 labeled).1
    exact Meets.bump_named (fun pair => inferInstance) beside (by simp [isName])

/-! ## Clauses -/

theorem inClause_cons {token next : Token} {before : List Token}
    (clause : Token.inClause token before = true) :
    Token.inClause next (token :: before) = true := by
  simp [Token.inClause, clause]

theorem heedsBreak_of_inClause {token : Token} {before : List Token}
    (clause : Token.inClause token before = true) : Token.heedsBreak before token = true := by
  cases before with
  | nil => cases clause
  | cons previous others => simp [Token.heedsBreak, clause]

/-- In clauses that do not go past the ends of the rows, the same number of tokens is skipped. -/
theorem clauseLength_eq_of_abreast {before as bs : List Token}
    (abreast : Token.Abreast before as bs)
    (clause : ∀ a ∈ as.head?, Token.inClause a before = true) {depth : Nat}
    (inside : clauseLength depth true (as ++ x) ≤ as.length)
    (inside' : clauseLength depth true (bs ++ y) ≤ bs.length) :
    clauseLength depth true (as ++ x) = clauseLength depth true (bs ++ y) := by
  induction abreast generalizing depth with
  | nil => rw [Nat.le_zero.1 inside, Nat.le_zero.1 inside']
  | @cons before as bs a b same breaks _ _ rest ih =>
    have here := clause a rfl
    simp only [List.cons_append, clauseLength, List.length_cons, ← Token.isPunct_eq_of_same same,
      ← breaks (heedsBreak_of_inClause here), ← opens_eq_of_same same,
      ← closes_eq_of_same same] at inside inside' ⊢
    split
    · rfl
    next goesOn =>
    rw [if_neg goesOn] at inside inside'
    split
    · rfl
    next more =>
    rw [if_neg more] at inside inside'
    refine congrArg (· + 1) (ih (fun c _ => inClause_cons here) ?_ ?_)
    · exact Nat.le_of_succ_le_succ inside
    · exact Nat.le_of_succ_le_succ inside'

theorem clauseLength_le (depth : Nat) (started : Bool) (tokens : List Token) :
    clauseLength depth started tokens ≤ tokens.length := by
  induction tokens generalizing depth started with
  | nil => exact Nat.le_refl 0
  | cons token rest ih =>
    unfold clauseLength
    split
    · exact Nat.succ_le_succ (Nat.zero_le _)
    split
    · exact Nat.zero_le _
    · exact Nat.succ_le_succ (ih _ _)

theorem rest_of_skipClause {u : Unit} (run : skipClause s = .ok u s') :
    s'.rest = s.rest.drop (clauseLength 0 false s.rest) := by
  replace run := get_bind.symm.trans run
  exact rest_of_bumpMany run

/-- A clause that has been passed over lies inside the row. -/
theorem clauseLength_add_le {u : Unit} (run : skipClause s = .ok u s') (fine : s'.Fine x) :
    clauseLength 0 false s.rest + x.length ≤ s.rest.length := by
  have inRow := fine.length_le
  rw [rest_of_skipClause run, List.length_drop] at inRow
  have bound := clauseLength_le 0 false s.rest
  omega

theorem clauseLength_eq_of_behind {before : List Token} (behind : Behind before x y s t)
    (inside : s.rest ≠ x) (clause : Token.inClause (s.peek 1) (s.current :: before) = true)
    (bound : clauseLength 0 false s.rest + x.length ≤ s.rest.length)
    (bound' : clauseLength 0 false t.rest + y.length ≤ t.rest.length) :
    clauseLength 0 false s.rest = clauseLength 0 false t.rest := by
  obtain ⟨as, bs, abreast, rest, rest'⟩ := behind
  rw [State.peek, State.current, State.peek, rest] at clause
  rw [rest] at bound inside ⊢
  rw [rest'] at bound' ⊢
  cases abreast with
  | nil => exact absurd rfl inside
  | @cons _ as _ _ _ same _ _ _ more =>
    simp only [List.cons_append, clauseLength_cons, ← opens_eq_of_same same, List.length_cons,
      List.length_append] at bound bound' ⊢
    refine congrArg (· + 1) (clauseLength_eq_of_abreast more (fun c head => ?_) ?_ ?_)
    · cases as with
      | nil => cases head
      | cons next as =>
        cases head
        exact clause
    · omega
    · omega

theorem skipClause_met {before : List Token} (beside : Beside x y s t)
    (behind : Behind before x y s t) (inside : s.rest ≠ x)
    (clause : Token.inClause (s.peek 1) (s.current :: before) = true) :
    Meet loose x y (skipClause s) (skipClause t) := by
  intro _ _ s' t' run run' fine fine'
  have bound := clauseLength_add_le run fine
  have same := clauseLength_eq_of_behind behind inside clause bound (clauseLength_add_le run' fine')
  obtain ⟨_, as, bs, abreast, rest, rest'⟩ := beside.drop bound
  refine .inl ⟨inferInstance, ⟨_, as, bs, abreast, ?_, ?_⟩, ?_, ?_⟩
  · rw [rest_of_skipClause run, rest]
  · rw [rest_of_skipClause run', ← same, rest']
  · exact beside.ends.proceeds (Proceeds.proceeds run)
  · exact (Steps.steps run).stop.trans (beside.stop.trans (Steps.steps run').stop.symm)

section Productions

variable [p.Stepping] [q.Stepping] [p.Taking] [q.Taking] [p.Netting] [q.Netting]
  [Productions.Meeting p q] {start start' : Nat}

/-! ## Exports -/

/-- A declaration of a function or a class takes three tokens at least. -/
class Productions.Declaring (p : Productions) : Prop where
  takes : ∀ {s x s'}, s.Ends →
    (s.current.isKeyword "function" || s.current.isKeyword "class") = true →
      p.statement s = .ok x s' → s'.rest.length + 3 ≤ s.rest.length

omit [p.Netting] in
theorem three_le_of_primary {e : Expr Mark} (ends : s.Ends)
    (word : (s.current.isKeyword "function" || s.current.isKeyword "class") = true)
    (run : primary p s = .ok e s') : s'.rest.length + 3 ≤ s.rest.length := by
  have isWord : s.current.kind = .keyword ∧
      (s.current.text = "function" ∨ s.current.text = "class") := by
    simp only [Token.isKeyword, Bool.or_eq_true, Bool.and_eq_true, decide_eq_true_eq] at word
    tauto
  rcases primary_eq_ok.1 run with ⟨ahead, _⟩ | ⟨_, _, found, _⟩ | ⟨_, _, found⟩
  · simp [State.asyncFunctionAhead, Token.isIdentifier, isWord.1] at ahead
  · rcases isWord with ⟨kind, text | text⟩ <;> simp [atom?, kind, text] at found
  · unfold compound at found
    split at found
    · exact Takes.takes ends found
    next noFunction =>
    split at found
    · exact Takes.takes ends found
    · next noClass => simp [noFunction, noClass] at word

/-- What is exported by default. -/
def exportDefault (p : Productions) (state : State) : Parse Unit := do
  if state.current.isKeyword "function" || state.current.isKeyword "class" then
    if state.declarationNamed then
      let _ ← p.statement
    else
      let _ ← primary p
  else
    let _ ← assignment p
    endStatement

/-- What is exported. -/
def exported (p : Productions) (state : State) : Parse Unit := do
  if state.current.isKeyword "default" then
    let _ ← bump
    exportDefault p (← get)
  else if state.current.isPunct "\x7b" || state.current.isPunct "*" then skipClause
  else
    let _ ← p.statement

theorem ite_bind {c : Prop} [Decidable c] (yes no : Parse α) (f : α → Parse β) :
    (if c then yes else no) >>= f = if c then yes >>= f else no >>= f := by
  split <;> rfl

omit [p.Stepping] [p.Taking] [p.Netting] in
theorem exportClause_eq (p : Productions) :
    exportClause p = (do
      let word ← bump
      exported p (← get)
      finishStmt word.span.start .hidden) := by
  unfold exportClause exported exportDefault
  simp only [ite_bind, bind_assoc, pure_bind]

instance : Takes 1 (exportDefault p s) := by
  unfold exportDefault
  infer_instance

instance : Proceeds (exportDefault p s) := by
  unfold exportDefault
  infer_instance

instance : Proceeds (exported p s) := by
  unfold exported
  infer_instance

theorem declarationNamed_eq_of_twins (second : Twin (s.peek 1) (t.peek 1))
    (third : Twin (s.peek 2) (t.peek 2)) : s.declarationNamed = t.declarationNamed := by
  unfold State.declarationNamed
  rw [Token.kind_eq_of_same second.same, Token.isPunct_eq_of_same second.same,
    Token.kind_eq_of_same third.same]

omit [p.Netting] in
/-- A declaration that is exported takes three tokens. -/
theorem overruns_of_few [p.Declaring] (ends : s.Ends)
    (word : (s.current.isKeyword "function" || s.current.isKeyword "class") = true)
    (few : ¬ x.length + 3 ≤ s.rest.length) {named : Bool} :
    Overruns x ((if named = true then p.statement >>= fun _ => pure ()
      else primary p >>= fun _ => pure ()) s) := by
  refine .ite (fun _ a s' run fine => ?_) fun _ a s' run fine => ?_
  all_goals
    obtain ⟨_, _, found, run⟩ := bind_eq_ok.1 run
    obtain ⟨_, rfl⟩ := pure_eq_ok.1 run
    have inRow := fine.length_le
  · have taken := Productions.Declaring.takes ends word found
    omega
  · have taken := three_le_of_primary ends word found
    omega

theorem exportDefault_met [p.Declaring] [q.Declaring] (beside : Beside x y s t) :
    Meet loose x y (exportDefault p s s) (exportDefault q t t) := by
  rcases beside.cases with ⟨ended, _⟩ | ⟨twin, _⟩
  · exact (Overruns.of_takes beside.ends ended).meet
  refine .ite ?_ (fun word => ?_) fun _ => Meets.meets beside
  · rw [Token.isKeyword_eq_of_same twin.same, Token.isKeyword_eq_of_same twin.same]
  by_cases three : x.length + 3 ≤ s.rest.length
  · exact .ite (declarationNamed_eq_of_twins (beside.peek (by omega)) (beside.peek (by omega)))
      (fun _ => Meets.meets beside) fun _ => Meets.meets beside
  · exact (overruns_of_few beside.ends word three).meet

omit [p.Netting] in
theorem overruns_of_exported (ends : s.Ends) (ended : s.rest = x) :
    Overruns x (exported p s s) := by
  refine .ite (fun word => .of_live ends ended fun eof => ?_) fun _ =>
    .ite (fun opens => .of_live ends ended fun eof => ?_) fun _ => .of_takes ends ended
  · simp [isKeyword_of_eof eof] at word
  · simp [isPunct_of_eof eof] at opens

theorem exported_met [p.Declaring] [q.Declaring] {previous : Token} {others : List Token}
    (beside : Beside x y s t) (behind : Behind (previous :: others) x y s t)
    (word : previous.isKeyword "export" = true) :
    Meet loose x y (exported p s s) (exported q t t) := by
  by_cases inside : s.rest = x
  · exact (overruns_of_exported beside.ends inside).meet
  rcases behind.cases with ⟨ended, _⟩ | ⟨twin, _⟩
  · exact absurd ended inside
  refine .ite (Token.isKeyword_eq_of_same twin.same _) (fun isDefault => ?_) fun _ =>
    .ite ?_ (fun _ => ?_) fun _ => Meets.meets beside
  · exact .take beside behind (fun eof => by simp [isKeyword_of_eof eof] at isDefault)
      fun _ beside _ => exportDefault_met beside
  · rw [Token.isPunct_eq_of_same twin.same, Token.isPunct_eq_of_same twin.same]
  · exact skipClause_met beside behind inside
      (inClause_cons (by simp [Token.inClause, Token.opensClause, word]))

theorem exportClause_met [p.Declaring] [q.Declaring] (beside : Beside x y s t)
    (word : s.current.isKeyword "export" = true) :
    Meet loose x y (exportClause p s) (exportClause q t) := by
  rw [exportClause_eq, exportClause_eq]
  obtain ⟨before, behind⟩ := beside.rows
  exact .take beside behind (fun eof => by simp [isKeyword_of_eof eof] at word)
    fun _ beside behind => (exported_met beside behind word).bind_strict
      fun _ _ _ _ _ _ _ beside => Meets.meets beside

/-! ## Any statement -/

omit [p.Taking] [q.Taking] [p.Netting] [q.Netting] in
theorem labeled_met (beside : Beside x y s t) (isName : s.current.kind = .identifier) :
    Meet loose x y (labeled p s) (labeled q t) := by
  refine Meets.bump_named (fun pair => ?_) beside (by simp [isName])
  rw [pair.text]
  infer_instance

/-! ### Imports that are called -/

/-- The word `import` comes next, and a call or a member behind it. -/
structure State.AtImportCall (s : State) : Prop where
  word : s.current.isKeyword "import" = true
  call : ((s.peek 1).isPunct "(" || (s.peek 1).isPunct ".") = true

theorem State.AtImportCall.kind (at_ : s.AtImportCall) : s.current.kind = .keyword := by
  have word := at_.word
  simp_all [Token.isKeyword]

theorem State.AtImportCall.text (at_ : s.AtImportCall) : s.current.text = "import" := by
  have word := at_.word
  simp_all [Token.isKeyword]

/-- The parse takes the word `import` and what makes it a call or a member. -/
class TakesCall (parse : Parse α) : Prop where
  takes : ∀ {s a s'}, s.Ends → s.AtImportCall → parse s = .ok a s' →
    s'.rest.length + 2 ≤ s.rest.length

instance TakesCall.first {parse : Parse β} {f : β → Parse α} [first : TakesCall parse]
    [last : ∀ b, Proceeds (f b)] : TakesCall (parse >>= f) where
  takes ends at_ run := by
    obtain ⟨b, _, run, run'⟩ := bind_eq_ok.1 run
    have more := ((last b).proceeds run').length_le
    exact (Nat.add_le_add_right more 2).trans (first.takes ends at_ run)

instance TakesCall.current {f : Token → Parse α} [last : ∀ token, TakesCall (f token)] :
    TakesCall (Grammar.current >>= f) where
  takes ends at_ run := by
    replace run := current_bind.symm.trans run
    exact (last _).takes ends at_ run

omit [p.Taking] [p.Netting] in
/-- A link that is added takes a token. -/
theorem taken_of_chainLink {e longer : Expr Mark} (ends : s.Ends)
    (run : chainLink p start e s = .ok (some longer) s') : s'.rest.length + 1 ≤ s.rest.length := by
  unfold chainLink at run
  replace run := eatPunct_bind_eq.symm.trans run
  split at run
  · next point => exact TakesLive.takes ends (ends.live_of_isPunct point) run
  replace run := eatPunct_bind_eq.symm.trans run
  split at run
  · next optional => exact TakesLive.takes ends (ends.live_of_isPunct optional) run
  replace run := atPunct_bind.symm.trans run
  split at run
  · next bracket => exact TakesLive.takes ends (ends.live_of_isPunct bracket) run
  replace run := atPunct_bind.symm.trans run
  split at run
  · next paren => exact TakesLive.takes ends (ends.live_of_isPunct paren) run
  replace run := current_bind.symm.trans run
  split at run
  · next template => exact TakesLive.takes ends (ends.live (by simp [template])) run
  · cases (pure_eq_ok.1 run).1

omit [p.Stepping] [p.Taking] [p.Netting] in
/-- The word `import` is an operand of its own. -/
theorem primary_of_atImportCall {e : Expr Mark} (at_ : s.AtImportCall)
    (run : primary p s = .ok e s') : s.next.grow e = s' := by
  rcases primary_eq_ok.1 run with ⟨ahead, _⟩ | ⟨_, _, _, _, grown⟩ | ⟨_, none, _⟩
  · simp [State.asyncFunctionAhead, Token.isIdentifier, at_.kind] at ahead
  · exact grown
  · simp [atom?, at_.kind, at_.text] at none

instance : TakesCall (chain p) where
  takes {s e s'} ends at_ run := by
    obtain ⟨head, middle, first, links⟩ := chain_eq_ok.1 run
    rw [if_neg (by simp [Token.isKeyword, at_.text])] at first
    obtain rfl := primary_of_atImportCall at_ first
    have one := State.length_next (ends.live_of_isKeyword at_.word)
    rcases extendUpTo_succ.1 links with ⟨stops, _⟩ | ⟨longer, behind, link, more⟩
    · have stops := (chainLink_eq_none.1 stops).1
      have next : (s.next.grow head).current = s.peek 1 := State.current_next s
      have call := at_.call
      simp only [continuesChain, next, Bool.or_eq_false_iff] at stops
      simp [stops] at call
    · have ends' : (s.next.grow head).Ends := (ends.proceeds (State.Steps.next s).proceeds :)
      have two : behind.rest.length + 1 ≤ (s.next.grow head).rest.length :=
        taken_of_chainLink ends' link
      have same : (s.next.grow head).rest = s.next.rest := rfl
      rw [same] at two
      have further := (Steps.steps more).length_le
      omega

instance : TakesCall (unary p) where
  takes {s e s'} ends at_ run := by
    rcases unary_eq_ok.1 run with ⟨op, _, _, ahead, _⟩ | ⟨_, update, _⟩ |
      ⟨_, _, operand, middle, found, last⟩
    · have none : UnaryOp.ofText? "import" = none := by decide
      simp [State.unaryAhead?, at_.kind, at_.text, none] at ahead
    · simp [isUpdate, Token.isPunct, at_.kind] at update
    · have two := TakesCall.takes ends at_ found
      split at last
      · obtain ⟨_, rfl⟩ := last
        exact (Nat.add_le_add_right (State.Steps.next middle).length_le 2).trans two
      · obtain ⟨_, rfl⟩ := last
        exact two

instance : TakesCall (assignment p) where
  takes {s e s'} ends at_ run := by
    have tests : TakesCall (conditional p) := by
      unfold conditional binary
      infer_instance
    rcases assignment_eq_ok.1 run with
      ⟨_, arrow⟩ | ⟨_, yields, _⟩ | ⟨_, _, target, middle, found, last⟩
    · have three : s'.rest.length + 3 ≤ s.rest.length := Takes.takes ends arrow
      omega
    · simp [Token.isKeyword, at_.text] at yields
    · have two := tests.takes ends at_ found
      split at last
      · obtain ⟨_, final, value, _, rfl⟩ := last
        exact (Nat.add_le_add_right
          ((Steps.steps value).length_le.trans (State.Steps.next middle).length_le) 2).trans two
      · obtain ⟨_, rfl⟩ := last
        exact two

instance : TakesCall (expressionStatement p) := by
  unfold expressionStatement expression sequence
  infer_instance

/-! ### The production that is chosen -/

theorem importClause_met (beside : Beside x y s t) (inside : s.rest ≠ x)
    (word : s.current.isKeyword "import" = true)
    (plain : ((s.peek 1).isPunct "(" || (s.peek 1).isPunct ".") = false) :
    Meet loose x y ((skipClause >>= fun _ => finishStmt start .hidden) s)
      ((skipClause >>= fun _ => finishStmt start' .hidden) t) := by
  obtain ⟨before, behind⟩ := beside.rows
  have clause : Token.inClause (s.peek 1) (s.current :: before) = true := by
    simp only [Token.inClause, Token.opensClause, word, plain, Bool.not_false,
      Bool.true_and, Bool.or_true, Bool.true_or]
  exact (skipClause_met beside behind inside clause).bind_strict
    fun _ _ _ _ _ _ _ beside => Meets.meets beside

/-- A call of `import` is an expression, and anything else behind the word a clause. -/
theorem import_met (beside : Beside x y s t) (inside : s.rest ≠ x)
    (twin : Twin s.current t.current) (word : s.current.isKeyword "import" = true) :
    Meet false x y
      ((if ((s.peek 1).isPunct "(" || (s.peek 1).isPunct ".") = true then expressionStatement p
        else skipClause >>= fun _ => finishStmt start .hidden) s)
      ((if ((t.peek 1).isPunct "(" || (t.peek 1).isPunct ".") = true then expressionStatement q
        else skipClause >>= fun _ => finishStmt start' .hidden) t) := by
  have word' := Token.isKeyword_eq_of_same twin.same "import" ▸ word
  rcases beside.two with ⟨few, few'⟩ | ⟨_, second, _⟩
  · by_cases call : ((s.peek 1).isPunct "(" || (s.peek 1).isPunct ".") = true
    · rw [if_pos call]
      exact Overruns.meet fun _ _ run fine =>
        fine.not_two_taken few (TakesCall.takes beside.ends ⟨word, call⟩ run)
    · rw [if_neg call]
      have call := Bool.eq_false_iff.2 call
      by_cases call' : ((t.peek 1).isPunct "(" || (t.peek 1).isPunct ".") = true
      · rw [if_pos call']
        exact Overruns.meet_right fun _ _ run' fine' =>
          fine'.not_two_taken few' (TakesCall.takes beside.ends' ⟨word', call'⟩ run')
      · rw [if_neg call']
        exact importClause_met beside inside word call
  · refine .ite ?_ (fun _ => Meets.meets beside) (importClause_met beside inside word)
    rw [Token.isPunct_eq_of_same second.same, Token.isPunct_eq_of_same second.same]

omit [p.Stepping] [p.Taking] [p.Netting] in
theorem statement_eq (p : Productions) (s : State) :
    statement p s = (statementAhead? p s).getD (expressionStatement p) s := by
  refine get_bind.trans ?_
  cases statementAhead? p s <;> rfl

omit [p.Stepping] [p.Taking] [p.Netting] in
theorem getD_ite {c : Bool} {yes no : Option (Parse α)} {other : Parse α} :
    (if c = true then yes else no).getD other s =
      (if c = true then yes.getD other else no.getD other) s := by
  split <;> rfl

instance [View α] {production production' other other' : Parse α}
    [meets : Meets loose production production'] :
    Meets loose ((some production).getD other) ((some production').getD other') :=
  meets

instance [View α] {other other' : Parse α} [meets : Meets loose other other'] :
    Meets loose (none.getD other) (none.getD other') :=
  meets

theorem keywordStatement?_met [p.Declaring] [q.Declaring] (beside : Beside x y s t)
    (inside : s.rest ≠ x) (twin : Twin s.current t.current) (kind : s.current.kind = .keyword) :
    Meet false x y ((keywordStatement? p s).getD (expressionStatement p) s)
      ((keywordStatement? q t).getD (expressionStatement q) t) := by
  have noString : ∀ value, s.current.kind ≠ .string value := by simp [kind]
  have word : ∀ text, s.current.text = text → s.current.isKeyword text = true := by
    simp [Token.isKeyword, kind]
  unfold keywordStatement?
  dsimp only
  rw [← Token.text_eq_of_same twin.same noString]
  split
  case h_1 | h_2 | h_3 => exact declaration_met beside noString
  case h_9 is => exact returning_met beside (word _ is)
  case h_11 is => exact jump_met beside (.inl (word _ is))
  case h_12 is => exact jump_met beside (.inr (word _ is))
  case h_16 is =>
    rw [getD_ite, getD_ite]
    exact import_met beside inside twin (word _ is)
  case h_17 is => exact exportClause_met beside (word _ is)
  all_goals exact Meets.meets beside

instance [p.Declaring] [q.Declaring] : Meets loose (statement p) (statement q) := by
  refine .of_strict ⟨fun {x y s t} beside => ?_⟩
  by_cases inside : s.rest = x
  · exact (Overruns.of_takes beside.ends inside).meet
  rcases beside.cases with ⟨ended, _⟩ | ⟨twin, _⟩
  · exact absurd ended inside
  rw [statement_eq, statement_eq]
  have kinds := Token.kind_eq_of_same twin.same
  unfold statementAhead?
  dsimp only
  rw [← kinds]
  split
  · next kind =>
    rw [← Token.text_eq_of_same twin.same (by simp [kind])]
    split
    · exact Meets.meets beside
    split
    · exact Meets.meets beside
    · exact Meets.meets beside
  · next kind => exact keywordStatement?_met beside inside twin kind
  · next kind =>
    rw [getD_ite, getD_ite]
    refine .test_two asyncFunctionAhead_eq_of_twins kind_ne_eof_of_asyncFunctionAhead beside
      (fun _ => Meets.meets beside) ?_
    rw [getD_ite, getD_ite]
    rcases beside.two with ⟨few, few'⟩ | ⟨_, second, _⟩
    · exact .ite_overruns (fun _ => .of_bump beside.ends few (by simp [kind]))
        (fun _ => .of_bump beside.ends' few' (by simp [← kinds, kind])) (Meets.meets beside)
    · exact .ite (Token.isPunct_eq_of_same second.same ":") (fun _ => labeled_met beside kind)
        fun _ => Meets.meets beside
  · exact Meets.meets beside

end Productions

/-! ## All depths -/

instance Productions.upTo_declaring (depth : Nat) : (Productions.upTo depth).Declaring where
  takes {s x s'} ends word run := by
    cases depth with
    | zero => exact absurd run unexpected_ne_ok
    | succ depth =>
      replace run := get_bind.symm.trans run
      simp only [Token.isKeyword, Bool.or_eq_true, Bool.and_eq_true, decide_eq_true_eq] at word
      rcases word with ⟨kind, text⟩ | ⟨kind, text⟩
      · simp only [statementAhead?, kind, keywordStatement?, text] at run
        exact Takes.takes ends run
      · simp only [statementAhead?, kind, keywordStatement?, text] at run
        exact Takes.takes ends run

/-- **Productions of any two depths meet.** -/
theorem Productions.upTo_meeting (depth depth' : Nat) :
    Productions.Meeting (Productions.upTo depth) (Productions.upTo depth') := by
  induction depth generalizing depth' with
  | zero =>
    exact ⟨.unexpected, .unexpected, fun _ => .unexpected, .unexpected, .unexpected, .unexpected,
      .unexpected⟩
  | succ depth ih =>
    cases depth' with
    | zero =>
      exact ⟨.unexpected_right, .unexpected_right, fun _ => .unexpected_right, .unexpected_right,
        .unexpected_right, .unexpected_right, .unexpected_right⟩
    | succ depth' =>
      have inner := ih depth'
      constructor <;> dsimp only [Productions.upTo] <;> infer_instance

/-! ## Statements one behind the other -/

namespace Recital

variable {xs ys : List (Stmt Mark)}

theorem steps (recital : Recital s xs s') : s.Steps s' := by
  induction recital with
  | nil => exact .refl _
  | cons _ read _ ih => exact (Steps.steps read).trans ih

theorem exists_of_append (recital : Recital s (xs ++ ys) s') :
    ∃ r, Recital s xs r ∧ Recital r ys s' := by
  induction xs generalizing s with
  | nil => exact ⟨s, .nil s, recital⟩
  | cons x xs ih =>
    cases recital with
    | cons depth read more =>
      obtain ⟨r, first, second⟩ := ih more
      exact ⟨r, .cons depth read first, second⟩

/-- A part of a recital is one. -/
theorem exists_of_isInfix (recital : Recital s xs s') (part : ys <:+: xs) :
    ∃ r r', s.Steps r ∧ Recital r ys r' ∧ r'.Steps s' := by
  obtain ⟨front, back, rfl⟩ := part
  obtain ⟨r', recital, behind⟩ := exists_of_append recital
  obtain ⟨r, before, here⟩ := exists_of_append recital
  exact ⟨r, r', before.steps, here, behind.steps⟩

/-- **Statements read side by side are the same without their marks.** -/
theorem bare_eq (first : Recital s xs s') (second : Recital t ys t')
    (beside : Beside s'.rest t'.rest s t) (unquoted : ¬ s'.HasQuotedName)
    (unquoted' : ¬ t'.HasQuotedName) : xs.map Stmt.bare = ys.map Stmt.bare := by
  induction first generalizing t ys with
  | nil s =>
    cases second with
    | nil => rfl
    | cons depth read more =>
      have taken : _ + 1 ≤ _ := Takes.takes beside.ends' read
      have behind := more.steps.length_le
      have lengths := beside.length_add
      omega
  | @cons s r s' _ _ depth read more ih =>
    cases second with
    | nil =>
      have taken : r.rest.length + 1 ≤ s.rest.length := Takes.takes beside.ends read
      have behind := more.steps.length_le
      have lengths := beside.length_add
      omega
    | cons depth' read' more' =>
      have meeting := Productions.upTo_meeting depth depth'
      have statements : Meets false _ _ := meeting.statement
      have fine : s'.Fine s'.rest := ⟨Nat.le_refl _, unquoted⟩
      have fine' : t'.Fine t'.rest := ⟨Nat.le_refl _, unquoted'⟩
      obtain ⟨like, beside⟩ := (statements.meets beside read read'
        (fine.of_proceeds more.steps.proceeds) (fine'.of_proceeds more'.steps.proceeds)).strict
      rw [List.map_cons, List.map_cons, like.stmt, ih more' beside unquoted]

end Recital

end TidyScript.Grammar
