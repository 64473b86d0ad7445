import TidyScript.Proofs.Grammar.Strength

/-!
# The grammar builds expressions that fit

Every expression that a parse completes fits: what stands below it binds as tightly as its place
asks. Each production of expressions promises how tightly its result binds at least, and has the
promises of the productions that it calls.

A row of operators is read with an invariant: the operator that comes next may take what has been
read as its left operand. It holds at the start, since a single operand binds more tightly than all
operators. It holds behind each operator that has been taken, since its right operand has been read
up to an operator that is weaker, or as weak where operators group to the left.
-/

namespace TidyScript.Grammar

-- productions are long rows of steps
set_option synthInstance.maxSize 1000000000

open Phrase (one_le_power rank_precedence rightLeast_le_thirteen)

/-! ## Rows of operators -/

/-- The expression binds at least as tightly as asked, and the operator ahead is not asked for. -/
structure Climbed (least : Nat) (e : Expr Mark) (s : State) : Prop extends Strong 3 e s where
  asked : least + 2 ≤ e.rank
  weaker : ∀ op, Infix.ofToken? s.noIn s.current = some op → op.power < least

/-- The expression binds at least as tightly as asked, and may become the left operand of the
operator ahead. -/
structure Climbing (least : Nat) (e : Expr Mark) (s : State) : Prop extends Strong 3 e s where
  asked : least + 2 ≤ e.rank
  joins : ∀ op, Infix.ofToken? s.noIn s.current = some op → op.leftLeast + 2 ≤ e.rank

/-- The productions promise how tightly their results bind: like an assignment (1), like an operand
of the operators (15), or like a call (17). -/
class Productions.Binding (p : Productions) : Prop where
  statement : Leads p.statement
  assignment : Builds (Strong 1) p.assignment
  binary : ∀ least, least ≤ 13 → Builds (Climbed least) (p.binary least)
  unary : Builds (Strong 15) p.unary
  chain : Builds (Strong 17) p.chain
  construct : Builds (Strong 17) p.construct
  primary : Builds (Strong 17) p.primary

variable {p : Productions} [binding : p.Binding]

/-- A single operand can be the left operand of every operator. -/
theorem Strong.climbing {least : Nat} (bounded : least ≤ 13) {e : Expr Mark} {s : State}
    (strong : Strong 15 e s) : Climbing least e s := by
  refine ⟨strong.less (by decide), ?_, fun op _ => ?_⟩
  · exact Nat.le_trans (Nat.add_le_add_right bounded 2) strong.rank
  · exact Nat.le_trans (Nat.add_le_add_right op.leftLeast_le 2) strong.rank

/-- **Taking one more operator keeps the invariant.** -/
theorem binaryLink_climbing {least : Nat} {left e : Expr Mark} {s s' : State}
    (firm : s.Firm) (climbing : Climbing least left s)
    (run : binaryLink p least left s = .ok (some e) s') :
    (s'.Firm ∧ s.lastEnd ≤ s'.lastEnd) ∧ Climbing least e s' := by
  obtain ⟨op, right, middle, sign, strong, operand, rfl, rfl⟩ := binaryLink_eq_some.1 run
  obtain ⟨⟨firm', le⟩, climbed⟩ :=
    binding.binary op.rightLeast (rightLeast_le_thirteen op) firm.next operand
  have shapes : Shapes op.precedence (op.build left right) :=
    ⟨op.mark_build left right, op.inherent_build left right,
      Infix.fits_build (climbing.joins op sign) climbed.asked⟩
  have built := shapes.strong middle left.outer.start
  rw [rank_precedence] at built
  refine ⟨⟨firm'.grow (shapes.fits _), Nat.le_trans firm.lastEnd_le le⟩, ?_⟩
  refine ⟨built.less (Nat.add_le_add_right (one_le_power op) 2), ?_, fun other ahead => ?_⟩
  · exact Nat.le_trans (Nat.add_le_add_right strong 2) built.rank
  · have weak := climbed.weaker other ahead
    exact Nat.le_trans (Nat.add_le_add_right (Infix.leftLeast_le_power weak) 2) built.rank

theorem binary_builds (operand : Builds (Strong 15) (unary p)) {least : Nat}
    (bounded : least ≤ 13) : Builds (Climbed least) (binary p least) := by
  intro s e s' firm run
  obtain ⟨left, middle, first, loop⟩ := binary_eq_ok.1 run
  obtain ⟨⟨firm', le⟩, strong⟩ := operand firm first
  obtain ⟨last, ⟨firm'', le'⟩, climbing, ends⟩ := Builds.extendUpTo
    (fun _ _ _ _ firm climbing run => binaryLink_climbing firm climbing run) loop firm'
    (strong.climbing bounded)
  obtain ⟨rfl, weaker⟩ := binaryLink_eq_none.1 ends
  exact ⟨⟨firm'', Nat.le_trans le le'⟩, ⟨climbing.toStrong, climbing.asked, weaker⟩⟩

/-! ## Sequences and parentheses -/

theorem Builds.item {least : Nat} (positive : 1 ≤ least) {x : Parse (Expr Mark)}
    (builds : Builds (Strong least) x) : Builds (fun e _ => 1 ≤ e.rank) x :=
  builds.imp fun _ _ strong => Nat.le_trans positive strong.rank

theorem sequence_builds {item : Parse (Expr Mark)} (builds : Builds (Strong 1) item) :
    Builds (Strong 0) (sequence item) := by
  intro s e s' firm run
  obtain ⟨first, middle, one, rest⟩ := sequence_eq_ok.1 run
  obtain ⟨⟨firm', le⟩, strong⟩ := builds firm one
  rcases rest with ⟨_, rfl, rfl⟩ | ⟨_, others, behind, loop, rfl, rfl⟩
  · exact ⟨⟨firm', le⟩, strong.less (by decide)⟩
  · obtain ⟨⟨firm'', le'⟩, all⟩ :=
      Builds.manyUpTo (builds.item (Nat.le_refl 1)) _ firm' loop
    have shapes : Shapes .sequence (.sequence · (first :: others)) :=
      ⟨fun _ => rfl, fun _ => rfl, fun _ =>
        Commaless.map (List.forall_mem_cons.2 ⟨strong.rank, all⟩)⟩
    exact ⟨⟨firm''.grow (shapes.fits _), Nat.le_trans le le'⟩, shapes.strong behind _⟩

/-- Parentheses that end behind what they enclose can be seen. -/
theorem Strong.isParenthesized {least : Nat} {e : Expr Mark} {s : State} (strong : Strong least e s)
    {outer : Span} (behind : s.lastEnd < outer.stop) :
    (e.withMark { e.mark with outer := outer }).isParenthesized = true := by
  rw [Expr.isParenthesized, Expr.mark_withMark, Mark.isParenthesized, decide_eq_true_iff]
  intro same
  have same : outer = e.span := same
  rw [same] at behind
  exact Nat.not_lt.2 strong.ends behind

/-- **What is in parentheses binds most tightly.** -/
theorem parenthesized_builds : Builds (Strong 17) (parenthesized p) := by
  intro s e s' firm run
  obtain ⟨inner, middle, items, close, rfl, rfl⟩ := parenthesized_eq_ok.1 run
  have entered := State.Firm.passage.inMode _ false firm.next
  obtain ⟨⟨firm', le⟩, strong⟩ := sequence_builds binding.assignment entered.1 items
  have live : middle.current.kind ≠ .eof := by
    intro isEnd
    simp [Token.isPunct, isEnd] at close
  have inside := @Strong.isParenthesized _ _ _ strong
    ⟨s.current.span.start, middle.current.span.stop⟩ (firm'.lastEnd_lt live)
  have fits := Expr.fits_withMark strong.fits { inner.mark with
    outer := ⟨s.current.span.start, middle.current.span.stop⟩ }
  have left := (State.Firm.passage.inMode middle s.noIn firm').1
  refine ⟨⟨left.next.enclosing fits, ?_⟩, ?_, fits, ?_⟩
  · exact Nat.le_trans (Nat.le_trans firm.lastEnd_le le) left.lastEnd_le
  · rw [Expr.rank_of_isParenthesized inside]
    decide
  · rw [Expr.span, Expr.mark_withMark]
    exact Nat.le_trans strong.ends left.lastEnd_le

/-! ## Parts of functions -/

theorem name_builds : Builds (fun e _ => 1 ≤ e.rank) name :=
  .skip fun _ => .pushName _ _

theorem bindingTarget_builds {primary : Parse (Expr Mark)} (builds : Builds (Strong 17) primary) :
    Builds (fun e _ => 1 ≤ e.rank) (bindingTarget primary) :=
  .skip fun _ => .skip fun _ => .ite (builds.item (by decide)) <|
    .skip fun _ => .ite name_builds (.expected _)

theorem spread_builds {start : Nat} {value : Expr Mark} (tight : 1 ≤ value.rank) :
    Builds (Strong 1) (finishExpr start (.spread · value)) :=
  .finishExpr .assignment ⟨fun _ => rfl, fun _ => rfl, fun _ => Commaless.singleton tight⟩
    (by decide)

theorem assigned_shapes (op : String) {target value : Expr Mark} (tight : 1 ≤ target.rank)
    (tightValue : 1 ≤ value.rank) : Shapes .assignment (.assignment · op target value) :=
  ⟨fun _ => rfl, fun _ => rfl, fun _ =>
    (Commaless.singleton tight).append (.singleton tightValue)⟩

/-- An expression, or one that is spread. -/
theorem spreadable_builds {target plain : Parse (Expr Mark)}
    (buildsTarget : Builds (fun e _ => 1 ≤ e.rank) target)
    (buildsPlain : Builds (Strong 1) plain) : Builds (fun e _ => 1 ≤ e.rank) (do
      if ← atPunct "..." then
        let start := (← bump).span.start
        let target ← target
        finishExpr start (.spread · target)
      else plain) :=
  .skip fun _ => .ite
    (.skip fun _ => .bind buildsTarget fun _ _ tight =>
      (spread_builds tight).item (Nat.le_refl 1))
    (buildsPlain.item (Nat.le_refl 1))

theorem params_builds :
    Builds (fun params _ => ∀ e ∈ params, 1 ≤ e.rank) (params p) :=
  .skip fun _ => .withNoIn (.commaList
    (spreadable_builds (bindingTarget_builds binding.primary) binding.assignment)) false

theorem statementList_leads : Leads (statementList p) := by
  have := binding.statement
  infer_instance

/-- A function with an arrow binds like an assignment, and one without like a name. -/
theorem function_shapes (arrow : Bool) {name : Option String} {params : List (Expr Mark)}
    {body : FunctionBody Mark} (tight : ∀ e ∈ params, 1 ≤ e.rank)
    (tightBody : Commaless (Expr.bodyNodes body)) :
    Shapes (if arrow then .assignment else .primary) (.function · name params body arrow) :=
  ⟨fun _ => rfl, fun _ => rfl, fun _ => (Commaless.map tight).append tightBody⟩

theorem functionTail_builds (start : Nat) (name : Option String) :
    Builds (Strong 17) (functionTail p start name) :=
  .bind params_builds fun _ _ tight => .pass statementList_leads fun body =>
    .finishExpr .primary (function_shapes false tight (.block body)) (by decide)

theorem functionExpression_builds (start : Nat) :
    Builds (Strong 17) (functionExpression p start) :=
  .skip fun _ => .skip fun _ => .skip fun _ => .ite
    (.skip fun _ => functionTail_builds start _) (functionTail_builds start _)

/-! ## Literals with parts -/

theorem listItem_builds : Builds (fun e _ => 1 ≤ e.rank) (listItem p) :=
  spreadable_builds (binding.assignment.item (Nat.le_refl 1)) binding.assignment

theorem arguments_leads : Leads (arguments p) :=
  Builds.leads (.skip fun _ =>
    .withNoIn (.commaList listItem_builds) false)

theorem arrayLiteral_builds : Builds (Strong 17) (arrayLiteral p) := by
  have each : Builds (fun element _ => Commaless (Expr.elementNodes element)) (do
      if ← eatPunct "," then return Element.hole
      let value ← listItem p
      if !(← atPunct "]") then
        let _ ← expectPunct ","
      return Element.item value) :=
    .skip fun _ => .ite (.pure fun _ => Commaless.nil) <|
      .bind listItem_builds fun _ _ tight => .skip fun _ => .ite
        (.skip fun _ => .pure fun _ => Commaless.singleton tight)
        (.pure fun _ => Commaless.singleton tight)
  exact .skip fun _ => .bind
    (.withNoIn (.bind (.manyUntil each) fun _ _ all => .skip fun _ =>
      .pure fun _ => all) false)
    fun _ _ all => .finishExpr .primary
      ⟨fun _ => rfl, fun _ => rfl, fun _ => Commaless.flatMap all⟩ (by decide)

theorem propertyKey_builds :
    Builds (fun key _ => Commaless (Expr.keyNodes key)) (propertyKey p) := by
  refine .skip fun token => ?_
  split
  case h_1 | h_2 | h_3 | h_4 => exact .skip fun _ => .pure fun _ => Commaless.nil
  case h_5 =>
    exact .ite (.skip fun _ => .bind binding.assignment fun _ _ strong =>
      .skip fun _ => .pure fun _ => Commaless.singleton strong.rank) (.expected _)

theorem objectProperty_builds :
    Builds (fun member _ => Commaless (Expr.memberNodes member)) (objectProperty p) := by
  refine .skip fun _ => .skip fun _ => .skip fun token =>
    .bind propertyKey_builds fun key _ tightKey => .skip fun _ => .ite ?_ ?_
  · exact .bind ((functionTail_builds _ none).item (by decide)) fun _ _ tight =>
      .pure fun _ => tightKey.append (.singleton tight)
  · refine .skip fun _ => .ite (.bind binding.assignment fun _ _ strong =>
      .pure fun _ => tightKey.append (.singleton strong.rank)) ?_
    refine .bind (.pushName _ _) fun _ _ tight => .skip fun _ => .ite ?_
      (.pure fun _ => tightKey.append (.singleton tight))
    refine .bind binding.assignment fun value _ strong =>
      .bind (@Builds.finishExpr 1 _ _ .assignment (assigned_shapes "=" tight strong.rank)
        (by decide)) fun _ _ default => .pure fun _ => tightKey.append (.singleton default.rank)

theorem objectLiteral_builds : Builds (Strong 17) (objectLiteral p) := by
  have each : Builds (fun member _ => Commaless (Expr.memberNodes member)) (do
      if ← atPunct "..." then
        let start := (← bump).span.start
        let value ← p.assignment
        return ObjectMember.spread (← finishExpr start (.spread · value))
      else objectProperty p) :=
    .skip fun _ => .ite
      (.skip fun _ => .bind binding.assignment fun _ _ strong =>
        .bind (spread_builds strong.rank) fun _ _ spread => .pure fun _ => .singleton spread.rank)
      objectProperty_builds
  exact .skip fun _ => .bind (.withNoIn (.commaList each) false) fun _ _ all =>
    .finishExpr .primary ⟨fun _ => rfl, fun _ => rfl, fun _ => Commaless.flatMap all⟩ (by decide)

/-! ## Operands, members and calls -/

theorem classBody_leads : Leads (classBody p) := by
  have := binding.assignment.leads
  have := binding.statement
  have := binding.chain.leads
  have (start : Nat) := (functionTail_builds (p := p) start none).leads
  infer_instance

theorem hidden_builds (start : Nat) : Builds (Strong 17) (finishExpr start .hidden) :=
  .finishExpr .primary ⟨fun _ => rfl, fun _ => rfl, fun _ => nofun⟩ (by decide)

/-- The expression that a single token stands for has nothing below it. -/
theorem atom_shapes {token : Token} {build : Mark → Expr Mark} (isAtom : atom? token = some build) :
    Shapes .primary build := by
  unfold atom? at isAtom
  repeat' split at isAtom
  all_goals
    cases isAtom <;> exact ⟨fun _ => rfl, fun _ => rfl, fun _ => nofun⟩

theorem primary_builds : Builds (Strong 17) (primary p) := by
  intro s e s' firm run
  rcases primary_eq_ok.1 run with ⟨_, run⟩ | ⟨_, build, isAtom, rfl, rfl⟩ | ⟨_, _, run⟩
  · obtain ⟨⟨firm', le⟩, strong⟩ := functionExpression_builds _ firm.next run
    exact ⟨⟨firm', Nat.le_trans firm.lastEnd_le le⟩, strong⟩
  · have shapes := atom_shapes isAtom
    exact ⟨⟨firm.next.grow (shapes.fits _), firm.lastEnd_le⟩,
      (shapes.strong s.next _).less (by decide)⟩
  · have compound : Builds (Strong 17) (compound p s.current) :=
      .ite (functionExpression_builds _) <|
        .ite (.pass classBody_leads fun _ => hidden_builds _) <|
        .ite parenthesized_builds <| .ite arrayLiteral_builds <|
        .ite objectLiteral_builds .unexpected
    exact compound firm run

theorem items_lead : Leads (sequence p.assignment) :=
  (sequence_builds binding.assignment).leads

section Links

variable {start : Nat} {operand : Expr Mark}

theorem member_builds (tight : 17 ≤ operand.rank) (key : Key Mark) (optional : Bool) :
    Builds Linked (do return some (← finishExpr start (.member · operand key optional))) :=
  .link .call ⟨fun _ => rfl, fun _ => rfl, fun _ => tight⟩ (by decide)

theorem constructLink_builds (tight : 17 ≤ operand.rank) :
    Builds Linked (constructLink p start operand) :=
  .skip fun _ => .ite (.skip fun _ => member_builds tight _ _) <|
    .skip fun _ => .ite
      (.pass items_lead fun _ => .skip fun _ => member_builds tight _ _)
      (.pure nofun)

theorem chainLink_builds (tight : 17 ≤ operand.rank) :
    Builds Linked (chainLink p start operand) := by
  have named : ∀ optional, Builds Linked (do
      let name ← propertyName
      return some (← finishExpr start (.member · operand (.named name) optional))) :=
    fun _ => .skip fun _ => member_builds tight _ _
  have called : ∀ optional, Builds Linked (do
      let arguments ← arguments p
      return some (← finishExpr start (.call · operand arguments optional))) :=
    fun _ => .pass arguments_leads fun _ =>
      .link .call ⟨fun _ => rfl, fun _ => rfl, fun _ => tight⟩ (by decide)
  have computed : ∀ optional key, Leads key → Builds Linked (do
      let key ← key
      let _ ← expectPunct "]"
      return some (← finishExpr start (.member · operand (.computed key) optional))) :=
    fun _ _ leads => .pass leads fun _ => .skip fun _ => member_builds tight _ _
  refine .skip fun _ => .ite (named _) <| .skip fun _ => .ite ?_ ?_
  · exact .skip fun _ => .ite (called _) <| .skip fun _ =>
      .ite (computed _ _ items_lead) (named _)
  · exact .skip fun _ => .ite
      (.skip fun _ => computed _ _
        (@Along.withNoIn _ _ _ _ items_lead false)) <|
      .skip fun _ => .ite (called _) <| .skip fun _ => .ite
        (.skip fun _ =>
          .link .primary ⟨fun _ => rfl, fun _ => rfl, fun _ => nofun⟩ (by decide))
        (.pure nofun)

end Links

/-- Links keep an operand one that can be continued. -/
theorem extend_builds {step : Expr Mark → Parse (Option (Expr Mark))} {head : Expr Mark}
    (steps : ∀ operand : Expr Mark, 17 ≤ operand.rank → Builds Linked (step operand))
    (tight : 17 ≤ head.rank) : Builds (fun e _ => 17 ≤ e.rank) (extend step head) := by
  intro s e s' firm run
  obtain ⟨last, ⟨firm', le⟩, tight, ends⟩ := @Builds.extendUpTo _ step (fun e _ => 17 ≤ e.rank)
    (fun _ _ w _ firm tight run =>
      ⟨(steps _ tight firm run).1, ((steps _ tight firm run).2 w rfl).rank⟩)
    _ _ _ _ _ (extend_eq_ok.1 run) firm tight
  obtain ⟨⟨firm'', le'⟩, _⟩ := steps e tight firm' ends
  exact ⟨⟨firm'', Nat.le_trans le le'⟩, tight⟩

theorem construct_builds : Builds (Strong 17) (construct p) := by
  have made : ∀ {start} {callee : Expr Mark} {arguments}, 17 ≤ callee.rank →
      Builds (Strong 17) (finishExpr start (.construct · callee arguments)) := fun tight =>
    .finishExpr .call ⟨fun _ => rfl, fun _ => rfl, fun _ => tight⟩ (by decide)
  have behind : ∀ start (head : Expr Mark), 17 ≤ head.rank → Builds (Strong 17) (do
      let callee ← extend (constructLink p head.outer.start) head
      let arguments ← if ← atPunct "(" then arguments p else pure []
      finishExpr start (.construct · callee arguments)) :=
    fun _ head tight => .bind (extend_builds (fun _ => constructLink_builds) tight)
      fun _ _ tight => .skip fun _ => .ite
        (.pass arguments_leads fun _ => made tight)
        (.skip fun _ => made tight)
  exact .skip fun _ => .skip fun _ => .ite
    (.skip fun _ => hidden_builds _) <| .skip fun _ => .ite
      (.bind binding.construct fun head _ strong => behind _ head strong.rank)
      (.bind primary_builds fun head _ strong => behind _ head strong.rank)

theorem chain_builds : Builds (Strong 17) (chain p) := by
  intro s e s' firm run
  obtain ⟨head, middle, first, loop⟩ := chain_eq_ok.1 run
  have heads : Builds (Strong 17)
      (if s.current.isKeyword "new" then construct p else primary p) :=
    .ite construct_builds primary_builds
  obtain ⟨⟨firm', le⟩, strong⟩ := heads firm first
  obtain ⟨last, ⟨firm'', le'⟩, strong, ends⟩ := Builds.extendUpTo
    (fun _ _ w _ firm strong run =>
      let linked := chainLink_builds strong.rank firm run
      ⟨linked.1, linked.2 w rfl⟩) loop firm' strong
  obtain ⟨_, rfl⟩ := chainLink_eq_none.1 ends
  exact ⟨⟨firm'', Nat.le_trans le le'⟩, strong⟩

/-! ## Operators -/

theorem unary_builds : Builds (Strong 15) (unary p) := by
  intro s e s' firm run
  rcases unary_eq_ok.1 run with ⟨op, argument, middle, _, operand, rfl, rfl⟩ |
    ⟨_, _, argument, middle, operand, rfl, rfl⟩ | ⟨_, _, operand, middle, first, last⟩
  · obtain ⟨⟨firm', le⟩, strong⟩ := binding.unary firm.next operand
    have shapes : Shapes .unary (.unary · op argument) :=
      ⟨fun _ => rfl, fun _ => rfl, fun _ => strong.rank⟩
    exact ⟨⟨firm'.grow (shapes.fits _), Nat.le_trans firm.lastEnd_le le⟩, shapes.strong middle _⟩
  · obtain ⟨⟨firm', le⟩, strong⟩ := binding.unary firm.next operand
    have shapes : Shapes .unary (.update · (s.current.text = "++") true argument) :=
      ⟨fun _ => rfl, fun _ => rfl, fun _ => strong.rank⟩
    exact ⟨⟨firm'.grow (shapes.fits _), Nat.le_trans firm.lastEnd_le le⟩, shapes.strong middle _⟩
  · obtain ⟨⟨firm', le⟩, strong⟩ := chain_builds firm first
    have strong := strong.less (by decide : 15 ≤ 17)
    split at last
    · obtain ⟨rfl, rfl⟩ := last
      have shapes : Shapes .suffix (.update · (middle.current.text = "++") false operand) :=
        ⟨fun _ => rfl, fun _ => rfl, fun _ => strong.rank⟩
      exact ⟨⟨firm'.next.grow (shapes.fits _), Nat.le_trans le firm'.lastEnd_le⟩,
        (shapes.strong middle.next _).less (by decide)⟩
    · obtain ⟨rfl, rfl⟩ := last
      exact ⟨⟨firm', le⟩, strong⟩

theorem conditional_builds : Builds (Strong 2) (conditional p) := by
  intro s e s' firm run
  obtain ⟨test, middle, first, rest⟩ := conditional_eq_ok.1 run
  obtain ⟨⟨firm', le⟩, climbed⟩ :=
    binary_builds unary_builds (Nat.zero_le 13) firm first
  rcases rest with ⟨_, rfl, rfl⟩ | ⟨_, yes, behind, no, final, second, _, third, rfl, rfl⟩
  · exact ⟨⟨firm', le⟩, climbed.toStrong.less (by decide)⟩
  · have entered := (State.Firm.passage.inMode _ false firm'.next).1
    obtain ⟨⟨firmYes, leYes⟩, strongYes⟩ := binding.assignment entered second
    have left := (State.Firm.passage.inMode _ middle.noIn firmYes).1
    obtain ⟨⟨firmNo, leNo⟩, strongNo⟩ := binding.assignment left.next third
    have shapes : Shapes .conditional (.conditional · test yes no) :=
      ⟨fun _ => rfl, fun _ => rfl, fun _ => ⟨climbed.rank, strongYes.rank, strongNo.rank⟩⟩
    have onward : s.lastEnd ≤ final.lastEnd := calc
      s.lastEnd ≤ middle.lastEnd := le
      _ ≤ middle.next.lastEnd := firm'.lastEnd_le
      _ ≤ behind.lastEnd := leYes
      _ ≤ (behind.inMode middle.noIn).next.lastEnd := left.lastEnd_le
      _ ≤ final.lastEnd := leNo
    exact ⟨⟨firmNo.grow (shapes.fits _), onward⟩, shapes.strong final _⟩

/-! ## Functions and assignments -/

theorem arrowBody_builds :
    Builds (fun body _ => Commaless (Expr.bodyNodes body)) (arrowBody p) :=
  .skip fun _ => .ite
    (.pass statementList_leads fun body => .pure fun _ => .block body)
    (.bind binding.assignment fun _ _ strong => .pure fun _ => .singleton strong.rank)

theorem arrowFunction_builds : Builds (Strong 1) (arrowFunction p) := by
  have behind : ∀ start (params : List (Expr Mark)), (∀ e ∈ params, 1 ≤ e.rank) →
      Builds (Strong 1) (do
        let _ ← expectPunct "=>"
        let body ← withNoIn false (arrowBody p)
        finishExpr start (.function · none params body true)) :=
    fun _ _ tight => .skip fun _ =>
      .bind (.withNoIn arrowBody_builds false) fun _ _ tightBody =>
        .finishExpr .assignment (function_shapes true tight tightBody) (by decide)
  have whole : ∀ start, Builds (Strong 1) (do
      let params ← if ← atName then pure [← name] else params p
      let _ ← expectPunct "=>"
      let body ← withNoIn false (arrowBody p)
      finishExpr start (.function · none params body true)) :=
    fun start => .skip fun _ => .ite
      (.bind name_builds fun _ _ tight => behind start _ (List.forall_mem_singleton.2 tight))
      (.bind params_builds fun _ _ tight => behind start _ tight)
  exact .skip fun _ => .skip fun _ => .skip fun _ => .ite
    (.skip fun _ => whole _) (whole _)

theorem yieldExpression_builds : Builds (Strong 17) (yieldExpression p) :=
  .skip fun _ => .skip fun _ => .skip fun _ => .ite
    (.pass binding.assignment.leads fun _ => hidden_builds _) (hidden_builds _)

theorem assignment_builds : Builds (Strong 1) (assignment p) := by
  intro s e s' firm run
  rcases assignment_eq_ok.1 run with ⟨_, run⟩ | ⟨_, _, run⟩ | ⟨_, _, target, middle, first, last⟩
  · exact arrowFunction_builds firm run
  · obtain ⟨onward, strong⟩ := yieldExpression_builds firm run
    exact ⟨onward, strong.less (by decide)⟩
  · obtain ⟨⟨firm', le⟩, strong⟩ := conditional_builds firm first
    have strong := strong.less (by decide : 1 ≤ 2)
    split at last
    · obtain ⟨value, final, second, rfl, rfl⟩ := last
      obtain ⟨⟨firm'', le'⟩, strongValue⟩ := binding.assignment firm'.next second
      have shapes := assigned_shapes middle.current.text strong.rank strongValue.rank
      exact ⟨⟨firm''.grow (shapes.fits _), Nat.le_trans le (Nat.le_trans firm'.lastEnd_le le')⟩,
        shapes.strong final _⟩
    · obtain ⟨rfl, rfl⟩ := last
      exact ⟨⟨firm', le⟩, strong⟩

/-! ## All productions -/

theorem statement_leads : Leads (statement p) := by
  have := binding.statement
  have := (bindingTarget_builds (primary_builds (p := p))).leads
  have := (params_builds (p := p)).leads
  have := classBody_leads (p := p)
  have := (primary_builds (p := p)).leads
  have := (assignment_builds (p := p)).leads
  have := (sequence_builds (assignment_builds (p := p))).leads
  exact Along.statement

/-- **The productions of every depth keep their promises.** -/
theorem Productions.binding_upTo (depth : Nat) : (Productions.upTo depth).Binding := by
  induction depth with
  | zero =>
    exact ⟨.unexpected, .unexpected, fun _ _ => .unexpected, .unexpected, .unexpected, .unexpected,
      .unexpected⟩
  | succ depth binding =>
    exact ⟨statement_leads, assignment_builds,
      fun _ bounded => binary_builds unary_builds bounded, unary_builds,
      chain_builds, construct_builds, primary_builds⟩

theorem readProgram_leads : Leads readProgram :=
  have (depth : Nat) := (Productions.binding_upTo depth).statement
  inferInstance

theorem readSingleExpression_leads : Leads readSingleExpression :=
  have (depth : Nat) := Productions.binding_upTo depth
  have (depth : Nat) := (sequence_builds (assignment_builds (p := .upTo depth))).leads
  have (depth : Nat) : Leads (expression (Productions.upTo depth)) := this depth
  inferInstance

end TidyScript.Grammar
