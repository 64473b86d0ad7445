import TidyScript.Proofs.Grammar.StatementSpan

/-!
# Expressions lay out their nodes

Every production of expressions reads nodes that are placed on the row of tokens. The productions
that are called through `Productions` are assumed to do so; what they are is settled once all
productions have been gone through. Most productions follow from the steps they are made of. Those
that put their nodes elsewhere than one behind the other are looked at one by one.
-/

namespace TidyScript.Grammar

open Node (Laid)

-- productions are long rows of steps
set_option synthInstance.maxSize 1000000000

variable {α β : Type} {row : TokenRow} {s s' : State} {due : Bool} {low : Nat}
  {held front : List (Node Mark)} {p : Productions}

/-- The productions read nodes that are placed on the row, and statements to their end. -/
class Productions.Sound (row : TokenRow) (p : Productions) : Prop where
  statement : Reads row p.statement
  spans : Spans p.statement
  assignment : Reads row p.assignment
  binary : ∀ least, Reads row (p.binary least)
  unary : Reads row p.unary
  chain : Reads row p.chain
  construct : Reads row p.construct
  primary : Reads row p.primary

namespace Productions.Sound

attribute [instance] statement assignment binary unary chain construct primary

end Productions.Sound

section Productions

variable [sound : p.Sound row]

/-! ## Parts of functions -/

instance : Reads row (dueStatement p) := by
  unfold dueStatement
  infer_instance

/-- The statements between two braces lie between the two braces, and leave out no token there. -/
theorem braces_of_statementList (stands : s.Stands row held) {body : List (Stmt Mark)}
    (run : statementList p s = .ok body s') :
    s.current.isPunct "\x7b" = true ∧ s'.Stands row (held ++ body.map .stmt) ∧ s.next.Leads s' ∧
      ∃ close ∈ row.tokens, close.isPunct "\x7d" = true ∧ s'.lastEnd = close.span.stop ∧
        Laid row.tokens s'.census true s.next.here (body.map .stmt) close.span.start ∧
          ∀ token ∈ row.tokens, s.next.lastEnd ≤ token.span.start →
            token.span.stop ≤ close.span.start → ∃ x ∈ body, x.span.contains token.span = true := by
  obtain ⟨_, _, opened, run⟩ := bind_eq_ok.1 run
  obtain ⟨isOpen, rfl, rfl⟩ := expectPunct_eq_ok.1 opened
  obtain ⟨_, last, many, run⟩ := bind_eq_ok.1 run
  replace run := bump_bind.symm.trans run
  obtain ⟨rfl, rfl⟩ := pure_eq_ok.1 run
  have reads : Reads row (manyUntil (atPunct "\x7d") (dueStatement p)) := inferInstance
  obtain ⟨stands', leads, laid⟩ := reads.reads stands.next many
  rw [nodesOf_stmts] at stands' laid
  obtain ⟨before, asked⟩ := exists_stop_of_manyUpTo many
  obtain ⟨isClose, rfl⟩ := atPunct_eq_ok.1 asked
  have live := stands'.ends.live_of_isPunct isClose
  refine ⟨isOpen, stands'.next, leads.trans before.leads_next, before.current,
    stands'.mem_current live, isClose, State.Stands.lastEnd_next live,
    laid.mono before.leads_next.within, ?_⟩
  exact exists_contains_of_manyUpTo (fun _ _ _ asked => (atPunct_eq_ok.1 asked).2)
    sound.spans.beforeEnd stands.next many

instance : Reads row (statementList p) where
  reads {s _ body _} stands run := by
    obtain ⟨_, stands', leads, close, mem, _, last, laid, _⟩ := braces_of_statementList stands run
    have first := stands.here_mono stands.next s.leads_next
    have written := stands.lined.written close mem
    have upper := stands'.lastEnd_le_here
    rw [nodesOf_stmts]
    exact ⟨stands', s.leads_next.trans leads, laid.widen first (by omega)⟩

/-- A punctuator of one byte ends one byte behind its start. -/
theorem stop_of_isPunct (lined : row.Lined) {token : Token} (mem : token ∈ row.tokens)
    {text : String} (is : token.isPunct text = true) (one : Text.byteLength text.toList = 1) :
    token.span.stop = token.span.start + 1 := by
  simp only [Token.isPunct, Bool.and_eq_true, decide_eq_true_eq] at is
  rw [lined.sized token mem, is.2, one]

instance : Reads row (block p) where
  reads {s held x s''} stands run := by
    replace run := current_bind.symm.trans run
    obtain ⟨body, s', list, finish⟩ := bind_eq_ok.1 run
    obtain ⟨isOpen, stands', leads, close, mem, isClose, last, laid, covered⟩ :=
      braces_of_statementList stands list
    have live := stands.ends.live_of_isPunct isOpen
    have openSize := stop_of_isPunct stands.lined (stands.mem_current live) isOpen (by decide)
    have closeSize := stop_of_isPunct stands.lined mem isClose (by decide)
    have openEnd := State.Stands.lastEnd_next live
    have inner := stands.next.lastEnd_le_here
    have upper := stands'.lastEnd_le_here
    have le := laid.spread.le
    have here : s.here = s.current.span.start := rfl
    have began : Began row held true s.here (nodesOf body) s' := by
      rw [nodesOf_stmts]
      refine ⟨stands', laid.widen (by omega) (by omega), .inr ?_⟩
      exact ⟨s.current, stands.mem_current live, rfl⟩
    have framed : Node.Framed row.tokens ⟨s.here, s'.lastEnd⟩ body := by
      refine ⟨⟨⟨s.current, stands.mem_current live, isOpen, rfl, openSize⟩,
        ⟨close, mem, isClose, last.symm, closeSize.symm.trans last.symm⟩, ?_⟩, ?_, ?_⟩
      · show s.here + 1 < s'.lastEnd
        omega
      · refine laid.spread.widen ?_ ?_
        · show s.here + 1 ≤ _
          omega
        · show _ ≤ s'.lastEnd - 1
          omega
      · intro token memToken lower upper
        refine covered token memToken ?_ ?_
        · change s.here + 1 ≤ token.span.start at lower
          omega
        · change token.span.stop ≤ s'.lastEnd - 1 at upper
          omega
    have lays := began.finishStmt (by omega) (.refl _) (by exact fun _ => framed) finish
    exact lays.behind (s.leads_next.trans leads)

/-- A name that is completed behind its token. -/
theorem pushName_lays (stands : s.Stands row held) {token : Token} (mem : token ∈ row.tokens)
    (before : token.span.stop ≤ s.here) {text : String} {e : Expr Mark}
    (run : pushExpr token.span (.identifier · text) s = .ok e s') :
    Lays row held true token.span.start [.expr e] s s' := by
  cases run
  have written := stands.lined.written token mem
  have edged : token.span.Edged row.tokens := ⟨⟨token, mem, rfl⟩, ⟨token, mem, rfl⟩, written⟩
  have placed : (Node.expr (.identifier ⟨s.exprs.size, token.span, token.span⟩ text)).Placed
      row.tokens (s.grow (.identifier ⟨s.exprs.size, token.span, token.span⟩ text)).census := by
    refine .over rfl edged ?_ (Laid.nil (Nat.le_of_lt written)) (fun _ => rfl) trivial
    simp [Node.id, NodeId.Counted, Expr.index, Expr.mark, State.census, State.grow]
  exact ⟨stands.keep.grow placed rfl, ⟨List.suffix_refl _, s.within_grow _⟩,
    .single placed (Nat.le_refl _) before⟩

instance : Starts row name where
  starts {s _ _ _} stands run passed := by
    replace run := bump_bind.symm.trans run
    have live : s.rest ≠ [] := by
      intro empty
      have same : s.next = s := by rw [State.next, empty]
      have := stands.lastEnd_le_here
      rw [same] at run
      cases run
      exact absurd passed (Nat.not_lt.2 this)
    have before := stands.next.lastEnd_le_here
    rw [State.Stands.lastEnd_next live] at before
    exact (pushName_lays stands.next (stands.mem_current live) before run).behind s.leads_next

/-- A property that is only a name, perhaps with a default, behind its key. -/
theorem shorthand_lays {key : Key Mark} (stands : s.Stands row held) {token : Token}
    (mem : token ∈ row.tokens) (before : token.span.stop ≤ s.here) {member : ObjectMember Mark}
    (run : (do
      let target ← pushExpr token.span (.identifier · token.text)
      if ← eatPunct "=" then
        let value ← p.assignment
        return .property key (← finishExpr token.span.start (.assignment · "=" target value))
      else return .property key target : Parse (ObjectMember Mark)) s = .ok member s') :
    ∃ value, member = .property key value ∧ value.outer.start = token.span.start ∧
      (token.isPunct "[" = true → value.StartsProperty) ∧
        Lays row held true token.span.start [.expr value] s s' := by
  obtain ⟨target, s₁, pushed, run⟩ := bind_eq_ok.1 run
  have lays := pushName_lays stands mem before pushed
  have began : Began row held true token.span.start [.expr target] s₁ :=
    ⟨lays.stands, lays.laid, .inr ⟨token, mem, rfl⟩⟩
  obtain ⟨_, s₂, asked, run⟩ := bind_eq_ok.1 run
  have more : Lays row _ true _ [] s₁ s₂ := Reads.reads began.stands asked
  have began₂ : Began row held true token.span.start [.expr target] s₂ := began.read more
  have bracket (is : token.isPunct "[" = true) : token.text = "[" := by
    simp only [Token.isPunct, Bool.and_eq_true, decide_eq_true_eq] at is
    exact is.2
  obtain ⟨mark, rfl, start⟩ : ∃ mark, target = .identifier mark token.text ∧
      mark.outer.start = token.span.start := by
    cases pushed
    exact ⟨_, rfl, rfl⟩
  split at run
  · obtain ⟨value, s₃, given, run⟩ := bind_eq_ok.1 run
    obtain ⟨e, _, made, run⟩ := bind_eq_ok.1 run
    obtain ⟨rfl, rfl⟩ := pure_eq_ok.1 run
    have last := sound.assignment.reads began₂.stands given
    have began₃ : Began row held true token.span.start [_, .expr value] s₃ := began₂.read last
    have whole := began₃.finishExpr began₃.passed (.refl _) (fun _ => rfl) (by simp) made
    obtain ⟨rfl, _⟩ := finishExpr_eq_ok.1 made
    refine ⟨_, rfl, rfl, fun is => ?_, whole.behind ?_⟩
    · rw [bracket is]
      exact .bracketDefault
    · exact lays.leads.trans (more.leads.trans last.leads)
  · obtain ⟨rfl, rfl⟩ := pure_eq_ok.1 run
    refine ⟨_, rfl, start, fun is => ?_, began₂.stands, lays.leads.trans more.leads, began₂.laid⟩
    rw [bracket is]
    exact .bracket

/-- A computed key stands behind its bracket. -/
theorem bracket_of_propertyKey (stands : s.Stands row held) {key : Expr Mark}
    (run : propertyKey p s = .ok (.computed key) s') :
    s.current.isPunct "[" = true ∧ s.here < key.outer.start := by
  replace run := current_bind.symm.trans run
  have named {word : String} (run : (bump >>= fun _ => pure (.named word) : Parse (Key Mark)) s =
      .ok (.computed key) s') : False := by
    replace run := bump_bind.symm.trans run
    cases (pure_eq_ok.1 run).1
  cases kind : s.current.kind <;> simp only [kind] at run
  case identifier | keyword | number | string => exact (named run).elim
  all_goals
    split at run
    case isFalse => exact absurd run expected_ne_ok
    case isTrue is =>
      replace run := bump_bind.symm.trans run
      obtain ⟨_, _, given, run⟩ := bind_eq_ok.1 run
      obtain ⟨_, _, _, run⟩ := bind_eq_ok.1 run
      obtain ⟨same, _⟩ := pure_eq_ok.1 run
      cases same
      have live := stands.ends.live_of_isPunct is
      have inside := (sound.assignment.reads stands.next given).laid.spread.inside (.expr key)
        (List.mem_singleton_self _)
      have written := stands.lined.written _ (stands.mem_current live)
      have inner := stands.next.lastEnd_le_here
      rw [State.Stands.lastEnd_next live] at inner
      exact ⟨is, Nat.lt_of_lt_of_le written (Nat.le_trans inner inside.1)⟩

/-- A name that comes next is taken. -/
instance [Bears β] {nodes : α → List (Node Mark)} {x : Parse β} {f : β → Parse α} {y : Parse α}
    [steps : Steps x] [takes : TakesLive x] [starts : Starts row x]
    [yes : ∀ b, Goes row due low (front ++ nodesOf b) nodes (f b)]
    [no : Goes row due low front nodes y] :
    Goes row due low front nodes (atName >>= fun b => if b = true then x >>= f else y) where
  goes {s _ _ _} began run last := by
    have live (is : decide (s.current.kind = .identifier) = true) : s.rest ≠ [] :=
      began.stands.ends.live fun isEnd => by simp [isEnd] at is
    obtain ⟨_, _, asked, run⟩ := bind_eq_ok.1 run
    cases asked
    split at run
    · next is =>
      obtain ⟨b, s', first, run⟩ := bind_eq_ok.1 run
      have passed := began.stands.here_lt (steps.along first)
        (takes.takes began.stands.ends (live is) first)
      have lays := starts.starts began.stands first passed
      exact ((yes b).goes (began.read lays) run last).behind lays.leads
    · exact no.goes began run last

variable [p.Stepping] [p.Taking]

instance : Reads row (params p) := inferInstance
instance : Reads row (listItem p) := inferInstance
instance : Reads row (arguments p) := inferInstance

/-! ## Object literals -/

instance : Reads row (propertyKey p) := by
  refine @Reads.of_goes _ _ _ _ fun low => @Goes.skip _ _ _ _ _ _ _ _ _ _ _ fun token => ?_
  split <;> infer_instance

/-- A property is laid out: its key, and its value from the start of the property on. -/
theorem objectProperty_lays (stands : s.Stands row held) {member : ObjectMember Mark}
    (run : objectProperty p s = .ok member s') :
    Lays row held false s.here (nodesOf member) s s' ∧ member.Formed row.tokens := by
  replace run := current_bind.symm.trans run
  obtain ⟨_, s₁, skipped, run⟩ := bind_eq_ok.1 run
  replace run := current_bind.symm.trans run
  obtain ⟨key, s₂, keyed, run⟩ := bind_eq_ok.1 run
  have began : Began row held true s.here [] s := stands.began
  have first : Lays row _ true _ [] s s₁ := Reads.reads began.stands skipped
  have began₁ : Began row held true s.here [] s₁ := began.read first
  have second : Lays row _ true _ (nodesOf key) s₁ s₂ := Reads.reads began₁.stands keyed
  have began₂ : Began row held true s.here (nodesOf key) s₂ := began₁.read second
  -- the key takes the token that stands for the property
  have taken : s₂.rest.length + 1 ≤ s₁.rest.length := Takes.takes began₁.stands.ends keyed
  have passed := began₁.stands.here_lt (Steps.steps keyed) taken
  have mem := began₁.stands.mem_current (List.ne_nil_of_length_pos (by omega))
  have keyEnd := began₂.stands.stop_le_of_start_lt mem passed
  have here := began₂.stands.lastEnd_le_here
  have start := began₁.laid.spread.le
  have bracket {e : Expr Mark} (is : key = .computed e) :=
    bracket_of_propertyKey began₁.stands (is ▸ keyed)
  obtain ⟨value, rfl, formed, lays⟩ : ∃ value, member = .property key value ∧
      (ObjectMember.property key value).Formed row.tokens ∧
        Lays row (held ++ nodesOf key) true s.here [.expr value] s₂ s' := by
    have form {value : Expr Mark} (leads : ∀ e, key = .computed e →
        value.outer.start ≤ s₁.here ∧ value.StartsProperty) :
        (ObjectMember.property key value).Formed row.tokens := by
      cases key with
      | named => trivial
      | computed e =>
        exact .inr ⟨Nat.lt_of_le_of_lt (leads e rfl).1 (bracket rfl).2, (leads e rfl).2⟩
    replace run := atPunct_bind.symm.trans run
    split at run
    · obtain ⟨value, _, tail, run⟩ := bind_eq_ok.1 run
      obtain ⟨rfl, rfl⟩ := pure_eq_ok.1 run
      have began₃ : Began row (held ++ nodesOf key) true s.here [] s₂ :=
        ⟨began₂.stands.keep, .nil began₂.laid.spread.le, began₂.start⟩
      have goes : Goes row true s.here [] nodesOf (functionTail p s.here none) := inferInstance
      have further := began₂.stands.lastEnd_le_of_steps (Steps.steps tail)
      refine ⟨value, rfl, form fun _ _ => ?_, goes.goes began₃ tail fun _ => by omega⟩
      obtain ⟨_, _, _, tail⟩ := bind_eq_ok.1 tail
      obtain ⟨_, _, _, tail⟩ := bind_eq_ok.1 tail
      obtain ⟨rfl, _⟩ := finishExpr_eq_ok.1 tail
      exact ⟨start, .method⟩
    · obtain ⟨_, s₃, asked, run⟩ := bind_eq_ok.1 run
      have colon : Lays row _ true _ [] s₂ s₃ := Reads.reads began₂.stands asked
      have stands₃ := colon.stands
      rw [List.append_nil] at stands₃
      have further := colon.laid.spread.le
      split at run
      · next yes =>
        obtain ⟨value, _, given, run⟩ := bind_eq_ok.1 run
        obtain ⟨rfl, rfl⟩ := pure_eq_ok.1 run
        have lays := sound.assignment.reads stands₃ given
        refine ⟨value, rfl, ?_, (lays.widen (by omega)).behind colon.leads⟩
        cases key with
        | named => trivial
        | computed e =>
          obtain ⟨is, next⟩ := eatPunct_eq_ok.1 (yes ▸ asked)
          have live := began₂.stands.ends.live_of_isPunct is
          obtain rfl : s₂.next = s₃ := next
          have behind := stands₃.lastEnd_le_here
          rw [State.Stands.lastEnd_next live] at behind
          have keyInside := began₂.laid.spread.inside (.expr e) (List.mem_singleton_self _)
          have inside := lays.laid.spread.inside (.expr value) (List.mem_singleton_self _)
          exact .inl ⟨s₂.current, began₂.stands.mem_current live, is, keyInside.2,
            Nat.le_trans behind inside.1⟩
      · obtain ⟨value, rfl, starts, leads, lays⟩ := shorthand_lays stands₃ mem (by omega) run
        refine ⟨value, rfl, form fun _ computed => ?_, (lays.widen start).behind colon.leads⟩
        exact ⟨Nat.le_of_eq starts, leads (bracket computed).1⟩
  exact ⟨(lays.beside began₂.stands began₂.laid).behind (first.leads.trans second.leads), formed⟩

/-- A part of an object literal is laid out. -/
theorem objectMember_lays (stands : s.Stands row held) {member : ObjectMember Mark}
    (run : (do
      if ← atPunct "..." then
        let start := (← bump).span.start
        let value ← p.assignment
        return ObjectMember.spread (← finishExpr start (.spread · value))
      else objectProperty p : Parse (ObjectMember Mark)) s = .ok member s') :
    Lays row held false s.here (nodesOf member) s s' ∧ member.Formed row.tokens := by
  replace run := atPunct_bind.symm.trans run
  split at run
  · refine ⟨Lays.relax (Reads.reads stands run), ?_⟩
    obtain ⟨_, _, _, run⟩ := bind_eq_ok.1 run
    obtain ⟨_, _, _, run⟩ := bind_eq_ok.1 run
    obtain ⟨_, _, _, run⟩ := bind_eq_ok.1 run
    obtain ⟨rfl, _⟩ := pure_eq_ok.1 run
    trivial
  · exact objectProperty_lays stands run

/-- Behind a part stands a comma, or the literal ends. -/
theorem advances_of_comma {value a : α} {close : String} (run : (do
      if !(← atPunct close) then
        let _ ← expectPunct ","
      return value : Parse α) s = .ok a s') : value = a ∧ s.Advances s' := by
  replace run := atPunct_bind.symm.trans run
  split at run
  · obtain ⟨_, _, comma, run⟩ := bind_eq_ok.1 run
    obtain ⟨_, _, rfl⟩ := expectPunct_eq_ok.1 comma
    obtain ⟨rfl, rfl⟩ := pure_eq_ok.1 run
    exact ⟨rfl, .next .refl⟩
  · obtain ⟨rfl, rfl⟩ := pure_eq_ok.1 run
    exact ⟨rfl, .refl⟩

/-- The parts of an object literal are laid out one behind the other. -/
theorem members_lay {stop : Parse Bool} [Reads row stop] {item : Parse (ObjectMember Mark)}
    (each : ∀ {s held member s'}, s.Stands row held → item s = .ok member s' →
      Lays row held false s.here (nodesOf member) s s' ∧ member.Formed row.tokens)
    {bound : Nat} (stands : s.Stands row held) {members : List (ObjectMember Mark)} (mark : Mark)
    (run : manyUpTo stop item bound s = .ok members s') :
    Lays row held false s.here (nodesOf members) s s' ∧
      (Node.expr (.object mark members)).Shaped row.tokens := by
  induction bound generalizing s held members with
  | zero => exact absurd run manyUpTo_zero
  | succ bound ih =>
    rcases manyUpTo_succ.1 run with
      ⟨asked, rfl⟩ | ⟨before, member, middle, others, asked, one, more, rfl⟩
    · have ends : Lays row held true s.here [] s s' := Reads.reads stands asked
      exact ⟨ends.relax, by simp [Node.Shaped]⟩
    · have first : Lays row _ true _ [] s before := Reads.reads stands.keep asked
      have began : Began row held false s.here [] before := stands.began.read first.relax
      obtain ⟨second, formed⟩ := each began.stands one
      have began := began.read second
      obtain ⟨third, all, inOrder⟩ := ih began.stands more
      have began := began.read third
      refine ⟨⟨began.stands, first.leads.trans (second.leads.trans third.leads), began.laid⟩,
        List.forall_mem_cons.2 ⟨formed, all⟩, .cons (fun other mem a memA b memB => ?_) inOrder⟩
      exact Nat.le_trans (second.laid.spread.inside a memA).2
        (third.laid.spread.inside b (List.mem_flatMap.2 ⟨other, mem, memB⟩)).1

instance : Starts row (objectLiteral p) where
  starts {s held e s'} stands run passed := by
    obtain ⟨_, _, opened, run⟩ := bind_eq_ok.1 run
    obtain ⟨_, rfl, rfl⟩ := expectPunct_eq_ok.1 opened
    obtain ⟨_, _, listed, made⟩ := bind_eq_ok.1 run
    obtain ⟨_, inner, rfl⟩ := withNoIn_eq_ok.1 listed
    obtain ⟨members, last, many, closed⟩ := bind_eq_ok.1 inner
    replace closed := bump_bind.symm.trans closed
    obtain ⟨rfl, rfl⟩ := pure_eq_ok.1 closed
    have first : Lays row _ true _ [] s s.next := Reads.reads stands.keep opened
    have began : Began row held false s.here [] s.next := stands.began.read first.relax
    obtain ⟨lays, shaped⟩ := members_lay (fun {s held member s'} stands run => by
      obtain ⟨member', middle, one, run⟩ := bind_eq_ok.1 run
      obtain ⟨rfl, rest⟩ := advances_of_comma run
      obtain ⟨lays, formed⟩ := objectMember_lays stands one
      exact ⟨lays.advance rest, formed⟩) (began.stands.inMode false) _ many
    have lays : Lays row _ false _ (nodesOf members) s.next (last.next.inMode s.next.noIn) :=
      (lays.advance (.next .refl)).inMode
    have began := began.read lays
    obtain ⟨_, rfl⟩ := finishExpr_eq_ok.1 made
    exact (began.finishExpr passed (.refl _) (by simp [Node.keepsOrder]) (by exact fun _ => shaped) made).behind
      (first.leads.trans lays.leads)

instance : Reads row (objectLiteral p) := inferInstance

/-! ## Classes -/

instance : Reads row (classKey p) := by
  refine @Reads.of_goes _ _ _ _ fun low => @Goes.skip _ _ _ _ _ _ _ _ _ _ _ fun token => ?_
  split <;> infer_instance

instance : Reads row (classMember p) := inferInstance
instance : Reads row (classBody p) := inferInstance

/-! ## Operands -/

instance : Reads row (sequence p.assignment) := inferInstance

/-- Recording parentheses puts the expression in the place of its inside. -/
instance {e : Expr Mark} {text : String} : Goes row due low ([] ++ nodesOf e) nodesOf
    (expectPunct text >>= fun close => enclose e ⟨low, close.span.stop⟩) where
  goes {s held e' s'} began run _ := by
    obtain ⟨_, _, closed, run⟩ := bind_eq_ok.1 run
    obtain ⟨is, rfl, rfl⟩ := expectPunct_eq_ok.1 closed
    obtain ⟨rfl, rfl⟩ := enclose_eq_ok.1 run
    have read : Reads row (expectPunct text) := inferInstance
    have began' : Began row held true low [.expr e] s.next :=
      began.read (read.reads began.stands closed)
    rw [← State.Stands.lastEnd_next (began.stands.ends.live_of_isPunct is)]
    have inside := (began'.laid_lastEnd began'.passed).spread.inside (.expr e) (by simp)
    have placed := (began'.laid.placed (.expr e) (by simp)).enclose (began'.edged began'.passed)
      inside.1 inside.2
    have stands := began'.stands.enclosing placed (by rw [Expr.index, Expr.mark_withMark]; rfl)
      (Expr.children_withMark _ e)
    refine ⟨stands, ⟨s.leads_next.suffix, ?_⟩, .single ?_ ?_ ?_⟩
    · rw [State.Stands.census_enclosing]
      exact s.leads_next.within
    · rwa [State.Stands.census_enclosing]
    · rw [Node.mark, Expr.mark_withMark]
    · rw [Node.mark, Expr.mark_withMark]
      exact began'.stands.lastEnd_le_here

instance : Reads row (parenthesized p) := inferInstance

/-- A single token stands for an expression without parts. -/
theorem madeOf_atom {token : Token} {build : Mark → Expr Mark}
    (isAtom : atom? token = some build) : MadeOf (fun mark => .expr (build mark)) false [] := by
  unfold atom? at isAtom
  repeat' split at isAtom
  all_goals cases isAtom
  all_goals exact ⟨fun _ => ⟨rfl, rfl, rfl⟩⟩

instance : Starts row (primary p) := by
  refine .get fun state => ?_
  dsimp only
  refine @Goes.ite _ _ _ _ _ _ _ _ _ _ inferInstance ?_
  split
  · next isAtom =>
    have := madeOf_atom isAtom
    infer_instance
  · infer_instance

instance : Reads row (primary p) := inferInstance

instance : Reads row (construct p) := inferInstance
instance : Reads row (chain p) := inferInstance

/-! ## Operators -/

instance : Starts row (unary p) := by
  refine .get fun state => ?_
  dsimp only
  split <;> infer_instance

instance : Reads row (unary p) := inferInstance

instance (op : Infix) (left right : Expr Mark) :
    MadeOf (fun mark => .expr (op.build left right mark)) false
      ([] ++ nodesOf left ++ nodesOf right) := by
  cases op <;> exact ⟨fun _ => ⟨rfl, rfl, rfl⟩⟩

instance {least : Nat} {left : Expr Mark} : Goes row due low ([] ++ nodesOf left)
    (fun longer? => nodesOf (longer?.getD left)) (binaryLink p least left) := by
  refine @Goes.skip _ _ _ _ _ _ _ _ _ _ _ fun state => ?_
  split <;> infer_instance

instance {least : Nat} : Reads row (binary p least) := inferInstance
instance : Reads row (conditional p) := inferInstance
instance : Reads row (assignment p) := inferInstance
instance : Reads row (expression p) := inferInstance

end Productions

end TidyScript.Grammar
