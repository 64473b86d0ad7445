import TidyScript.Proofs.Grammar.Stepping

/-!
# How many tokens a production takes

Every production that reads an expression or a statement takes a token at least. Where the grammar
decides by looking ahead, the production it decides for takes all the tokens that have been looked
at. Both are counted here. A production that starts by taking the next token, whatever it is, takes
one where the row has not ended.
-/

namespace TidyScript.Grammar

-- productions are long rows of steps
set_option synthInstance.maxSize 1000000000

variable {α β : Type} {p : Productions} {s s' : State}

/-! ## Parses that only go on -/

namespace State

/-- The second state is further on in the row. It has the same end mark and mode, and a quoted name
if the first has one. -/
structure Proceeds (s s' : State) : Prop where
  suffix : s'.rest <:+ s.rest
  stop : s'.stop = s.stop
  mode : s'.noIn = s.noIn
  quoted : s.HasQuotedName → s'.HasQuotedName

theorem Proceeds.length_le (proceeds : s.Proceeds s') : s'.rest.length ≤ s.rest.length :=
  proceeds.suffix.length_le

theorem Proceeds.trans {s'' : State} (first : s.Proceeds s') (second : s'.Proceeds s'') :
    s.Proceeds s'' :=
  ⟨second.suffix.trans first.suffix, second.stop.trans first.stop,
    second.mode.trans first.mode, second.quoted ∘ first.quoted⟩

theorem Steps.proceeds (steps : s.Steps s') : s.Proceeds s' :=
  ⟨steps.suffix, steps.stop, steps.mode, steps.quoted⟩

end State

/-- Wherever the parse leads, it leads on. It may complete nodes with lists that something else
has to recite. -/
abbrev Proceeds (parse : Parse α) : Prop :=
  Along State.Proceeds parse

instance : Course State.Proceeds := ⟨fun s => (State.Steps.refl s).proceeds, State.Proceeds.trans⟩

namespace Proceeds

theorem proceeds {parse : Parse α} [proceeds : Proceeds parse] {a : α} (run : parse s = .ok a s') :
    s.Proceeds s' :=
  proceeds.along run

instance of_steps {parse : Parse α} [Steps parse] : Proceeds parse where
  along run := (Steps.steps run).proceeds

instance finishExpr {start : Nat} {build : Mark → Expr Mark} :
    Proceeds (Grammar.finishExpr start build) where
  along run := by
    obtain ⟨rfl, rfl⟩ := finishExpr_eq_ok.1 run
    exact ⟨List.suffix_refl _, rfl, rfl, (State.Keeps.grow ..).quoted⟩

instance finishStmt {start : Nat} {build : Mark → Stmt Mark} :
    Proceeds (Grammar.finishStmt start build) where
  along run := by
    obtain ⟨rfl, rfl⟩ := finishStmt_eq_ok.1 run
    exact ⟨List.suffix_refl _, rfl, rfl, id⟩

end Proceeds

/-! ## Counting -/

/-- The row ends with an end mark. -/
def State.Ends (s : State) : Prop :=
  s.stop.kind = .eof

namespace State

theorem Ends.proceeds (ends : s.Ends) (proceeds : s.Proceeds s') : s'.Ends :=
  (congrArg Token.kind proceeds.stop).trans ends

theorem Ends.inMode (ends : s.Ends) (noIn : Bool) : (s.inMode noIn).Ends :=
  ends

theorem Ends.live (ends : s.Ends) (live : s.current.kind ≠ .eof) : s.rest ≠ [] := by
  intro empty
  rw [current, peek, empty] at live
  exact live ends

theorem Ends.live_of_isPunct (ends : s.Ends) {text : String}
    (is : s.current.isPunct text = true) : s.rest ≠ [] := by
  refine ends.live fun eof => ?_
  simp [Token.isPunct, eof] at is

theorem Ends.live_of_isKeyword (ends : s.Ends) {text : String}
    (is : s.current.isKeyword text = true) : s.rest ≠ [] := by
  refine ends.live fun eof => ?_
  simp [Token.isKeyword, eof] at is

theorem length_next (live : s.rest ≠ []) : s.next.rest.length + 1 = s.rest.length := by
  obtain ⟨rest, _⟩ := s
  cases rest with
  | nil => exact absurd rfl live
  | cons token rest => rfl

end State

/-- The parse takes so many tokens at least. -/
class Takes (count : Nat) (parse : Parse α) : Prop where
  takes : ∀ {s a s'}, s.Ends → parse s = .ok a s' → s'.rest.length + count ≤ s.rest.length

/-- The parse takes a token where the row has not ended. -/
class TakesLive (parse : Parse α) : Prop where
  takes : ∀ {s a s'}, s.Ends → s.rest ≠ [] → parse s = .ok a s' → s'.rest.length + 1 ≤ s.rest.length

namespace Takes

variable {count : Nat}

instance unfolds {x y : Parse α} [unfolds : Unfolds x y] [takes : Takes count y] : Takes count x :=
  unfolds.eq ▸ takes

instance expected (what : String) : Takes count (Grammar.expected what : Parse α) where
  takes _ run := absurd run expected_ne_ok

instance unexpected : Takes count (Grammar.unexpected : Parse α) where
  takes _ run := absurd run unexpected_ne_ok

instance expectPunct (text : String) : Takes 1 (Grammar.expectPunct text) where
  takes ends run := by
    obtain ⟨is, _, rfl⟩ := expectPunct_eq_ok.1 run
    exact (State.length_next (ends.live_of_isPunct is)).le

instance expectKeyword (text : String) : Takes 1 (Grammar.expectKeyword text) where
  takes ends run := by
    obtain ⟨is, _, rfl⟩ := expectKeyword_eq_ok.1 run
    exact (State.length_next (ends.live_of_isKeyword is)).le

section

variable {parse : Parse β} {f : β → Parse α}

instance last [first : Proceeds parse] [last : ∀ b, Takes count (f b)] :
    Takes count (parse >>= f) where
  takes ends run := by
    obtain ⟨b, _, run, run'⟩ := bind_eq_ok.1 run
    have proceeds := first.along run
    exact ((last b).takes (ends.proceeds proceeds) run').trans proceeds.length_le

instance first [first : Takes count parse] [last : ∀ b, Proceeds (f b)] :
    Takes count (parse >>= f) where
  takes ends run := by
    obtain ⟨b, _, run, run'⟩ := bind_eq_ok.1 run
    exact (Nat.add_le_add_right ((last b).along run').length_le count).trans (first.takes ends run)

theorem both {count' : Nat} [proceeds : Proceeds parse] [first : Takes count parse]
    [last : ∀ b, Takes count' (f b)] : Takes (count + count') (parse >>= f) where
  takes ends run := by
    obtain ⟨b, _, run, run'⟩ := bind_eq_ok.1 run
    have one := first.takes ends run
    have more := (last b).takes (ends.proceeds (proceeds.along run)) run'
    omega

instance two [Proceeds parse] [Takes 1 parse] [∀ b, Takes 1 (f b)] : Takes 2 (parse >>= f) :=
  (both : Takes (1 + 1) _)

instance three [Proceeds parse] [Takes 1 parse] [∀ b, Takes 2 (f b)] : Takes 3 (parse >>= f) :=
  (both : Takes (1 + 2) _)

end

variable {text : String} {parse parse' : Parse α}

instance ite {c : Prop} [Decidable c] [Takes count parse] [Takes count parse'] :
    Takes count (if c then parse else parse') := by split <;> assumption

instance withNoIn {parse : Parse α} [inner : Takes count parse] {noIn : Bool} :
    Takes count (Grammar.withNoIn noIn parse) where
  takes ends run := by
    obtain ⟨middle, inside, rfl⟩ := withNoIn_eq_ok.1 run
    exact (inner.takes (ends.inMode noIn) inside :)

/-- A punctuator comes next and is taken. -/
instance atPunct [yes : TakesLive parse] [no : Takes 1 parse'] :
    Takes 1 (Grammar.atPunct text >>= fun b => if b = true then parse else parse') where
  takes ends run := by
    replace run := atPunct_bind.symm.trans run
    split at run
    · next is => exact yes.takes ends (ends.live_of_isPunct is) run
    · exact no.takes ends run

/-- A keyword comes next and is taken. -/
instance atKeyword [yes : TakesLive parse] [no : Takes 1 parse'] :
    Takes 1 (Grammar.atKeyword text >>= fun b => if b = true then parse else parse') where
  takes ends run := by
    replace run := atKeyword_bind.symm.trans run
    split at run
    · next is => exact yes.takes ends (ends.live_of_isKeyword is) run
    · exact no.takes ends run

/-- A name comes next and is taken. -/
theorem name_first {first : Parse β} {f : β → Parse α} {parse : Parse α} [taken : TakesLive first]
    [proceeds : Proceeds first] (yes : ∀ b, Takes count (f b)) (no : Takes (count + 1) parse) :
    Takes (count + 1)
      (Grammar.atName >>= fun b => if b = true then first >>= f else parse) where
  takes {s a s'} ends run := by
    have run : (if decide (s.current.kind = .identifier) = true then first >>= f else parse) s =
      .ok a s' := run
    split at run
    · next is =>
      obtain ⟨b, middle, one, more⟩ := bind_eq_ok.1 run
      have one' := taken.takes ends (ends.live (by simp_all)) one
      have more' := (yes b).takes (ends.proceeds (proceeds.along one)) more
      omega
    · exact no.takes ends run

instance atName [yes : TakesLive parse] [no : Takes 1 parse'] :
    Takes 1 (Grammar.atName >>= fun b => if b = true then parse else parse') where
  takes {s a s'} ends run := by
    have run : (if decide (s.current.kind = .identifier) = true then parse else parse') s =
      .ok a s' := run
    split at run
    · next is => exact yes.takes ends (ends.live (by simp_all)) run
    · exact no.takes ends run

/-- A token that is looked at and found fit is taken. -/
theorem looked {f : Token → Parse α}
    (fit : ∀ token, token.kind ≠ .eof → TakesLive (f token))
    (unfit : ∀ token, token.kind = .eof → Takes 1 (f token)) :
    Takes 1 (Grammar.current >>= f) where
  takes {s a s'} ends run := by
    replace run := current_bind.symm.trans run
    by_cases eof : s.current.kind = .eof
    · exact (unfit _ eof).takes ends run
    · exact (fit _ eof).takes ends (ends.live eof) run

instance eatPunct [yes : Proceeds parse] [no : Takes 1 parse'] :
    Takes 1 (Grammar.eatPunct text >>= fun b => if b = true then parse else parse') where
  takes ends run := by
    obtain ⟨_, _, looked, run⟩ := bind_eq_ok.1 run
    obtain ⟨rfl, rfl⟩ := eatPunct_eq_ok.1 looked
    split at run
    · next is =>
      exact (Nat.add_le_add_right (yes.along run).length_le 1).trans
        (State.length_next (ends.live_of_isPunct is)).le
    · exact no.takes ends run

/-- A row that ends with a token that is taken takes that token. -/
instance manyUntil_eatPunct {item : Parse α} [each : Proceeds item] :
    Takes 1 (Grammar.manyUntil (Grammar.eatPunct text) item) where
  takes {s items s'} ends run := by
    replace run := manyUntil_eq_ok.1 run
    generalize s.rest.length + 1 = bound at run
    induction bound generalizing s items with
    | zero => exact absurd run manyUpTo_zero
    | succ bound ih =>
      rcases manyUpTo_succ.1 run with ⟨asked, _⟩ | ⟨_, _, _, _, asked, one, more, _⟩
      · obtain ⟨is, rfl⟩ := eatPunct_eq_ok.1 asked
        exact (State.length_next (ends.live_of_isPunct is)).le
      · have proceeds := (Steps.steps asked).proceeds.trans (each.along one)
        exact (ih (ends.proceeds proceeds) more).trans proceeds.length_le

end Takes

namespace TakesLive

instance unfolds {x y : Parse α} [unfolds : Unfolds x y] [takes : TakesLive y] : TakesLive x :=
  unfolds.eq ▸ takes

instance of_takes {parse : Parse α} [always : Takes 1 parse] : TakesLive parse where
  takes ends _ := always.takes ends

instance bump : TakesLive Grammar.bump where
  takes _ live run := by
    obtain ⟨_, rfl⟩ := bump_eq_ok.1 run
    exact (State.length_next live).le

instance first {parse : Parse β} {f : β → Parse α} [first : TakesLive parse]
    [last : ∀ b, Proceeds (f b)] : TakesLive (parse >>= f) where
  takes ends live run := by
    obtain ⟨b, _, run, run'⟩ := bind_eq_ok.1 run
    have behind := ((last b).along run').length_le
    exact (Nat.add_le_add_right behind 1).trans (first.takes ends live run)

instance ite {c : Prop} [Decidable c] {parse parse' : Parse α} [TakesLive parse]
    [TakesLive parse'] : TakesLive (if c then parse else parse') := by split <;> assumption

end TakesLive

/-! ## Productions -/

/-- All productions that are called take a token. -/
class Productions.Taking (p : Productions) : Prop where
  statement : Takes 1 p.statement
  assignment : Takes 1 p.assignment
  binary : ∀ least, Takes 1 (p.binary least)
  unary : Takes 1 p.unary
  chain : Takes 1 p.chain
  construct : Takes 1 p.construct
  primary : Takes 1 p.primary

namespace Productions.Taking

attribute [instance] statement assignment binary unary chain construct primary

end Productions.Taking

section Productions

variable [p.Stepping] [p.Taking] {e : Expr Mark} {start : Nat}

instance : Takes 3 (functionExpression p start) := by
  unfold functionExpression functionTail
  dsimp only
  infer_instance

instance : Takes 1 (propertyKey p) :=
  .looked (fun _ _ => by split <;> infer_instance) fun token eof => by
    simp only [eof]
    infer_instance

instance : Takes 1 (classKey p) :=
  .looked (fun _ _ => by split <;> infer_instance) fun token eof => by
    simp only [eof]
    infer_instance

instance : Takes 1 (parenthesized p) where
  takes {s e s'} ends run := by
    obtain ⟨inner, middle, found, _, rfl, rfl⟩ := parenthesized_eq_ok.1 run
    have opened := (State.Steps.next s).proceeds
    have inside : Takes 1 (sequence p.assignment) := inferInstance
    have taken := inside.takes ((ends.proceeds opened).inMode false) found
    calc (middle.inMode s.noIn).next.rest.length + 1
      _ ≤ middle.rest.length + 1 := Nat.add_le_add_right (State.Steps.next _).length_le 1
      _ ≤ s.next.rest.length := taken
      _ ≤ s.rest.length := opened.length_le

instance {token : Token} : Takes 1 (compound p token) := by
  unfold compound
  infer_instance

theorem kind_ne_eof_of_atom? {token : Token} {build : Mark → Expr Mark}
    (found : atom? token = some build) : token.kind ≠ .eof := by
  intro eof
  simp [atom?, eof] at found

instance : Takes 1 (primary p) where
  takes {s e s'} ends run := by
    rcases primary_eq_ok.1 run with ⟨_, run⟩ | ⟨_, build, found, _, rfl⟩ | ⟨_, _, run⟩
    · have opened := (State.Steps.next s).proceeds
      have inside : Takes 1 (functionExpression p s.current.span.start) := inferInstance
      exact (inside.takes (ends.proceeds opened) run).trans opened.length_le
    · exact (State.length_next (ends.live (kind_ne_eof_of_atom? found))).le
    · exact Takes.takes ends run

instance : Takes 1 (unary p) := by
  unfold unary
  refine @Takes.last _ _ _ _ _ _ fun state => ?_
  dsimp only
  split <;> infer_instance

instance : Takes 3 (arrowFunction p) := by
  unfold arrowFunction
  dsimp only
  refine @Takes.last _ _ _ _ _ _ fun _ => @Takes.last _ _ _ _ _ _ fun _ =>
    @Takes.last _ _ _ _ _ _ fun _ => @Takes.ite _ _ _ _ _ _ (@Takes.last _ _ _ _ _ _ fun _ => ?_) ?_
  all_goals exact Takes.name_first (fun _ => inferInstance) (inferInstanceAs (Takes 3 _))

instance : Takes 1 (arrowFunction p) where
  takes ends run := by
    have all : Takes 3 (arrowFunction p) := inferInstance
    exact (Nat.add_le_add_left (by decide) _).trans (all.takes ends run)

/-! ## Statements -/

/-- A clause is its first token at least. -/
theorem clauseLength_cons (token : Token) (rest : List Token) :
    clauseLength 0 false (token :: rest) =
      clauseLength (if token.opens then 1 else 0) true rest + 1 := by
  simp [clauseLength]

instance : TakesLive skipClause where
  takes {s _ s'} ends live run := by
    replace run := get_bind.symm.trans run
    obtain ⟨count, some⟩ : ∃ count, clauseLength 0 false s.rest = count + 1 := by
      cases found : s.rest with
      | nil => exact absurd found live
      | cons token rest => exact ⟨_, clauseLength_cons token rest⟩
    rw [some] at run
    have takes : TakesLive (bumpMany (count + 1)) :=
      inferInstanceAs (TakesLive (bump >>= fun _ => bumpMany count))
    exact takes.takes ends live run

omit [p.Taking] in
theorem takesLive_of_statementAhead? {production : Parse (Stmt Mark)}
    (found : statementAhead? p s = some production) : TakesLive production := by
  apply of_statementAhead? found <;> intros <;> and_intros <;> infer_instance

instance : Takes 1 (statement p) where
  takes {s x s'} ends run := by
    replace run := get_bind.symm.trans run
    cases found : statementAhead? p s with
    | some production =>
      simp only [found] at run
      have live : s.current.kind ≠ .eof := fun isEnd => by simp [statementAhead?, isEnd] at found
      exact (takesLive_of_statementAhead? found).takes ends (ends.live live) run
    | none =>
      simp only [found] at run
      exact Takes.takes ends run

end Productions

/-- Productions of every depth take a token. -/
instance Productions.upTo_taking (depth : Nat) : (Productions.upTo depth).Taking := by
  induction depth <;> constructor <;> dsimp only [Productions.upTo, Productions.none] <;>
    infer_instance

end TidyScript.Grammar
