import TidyScript.Proofs.Grammar.Ownership
import TidyScript.Proofs.Grammar.Taking
import TidyScript.Proofs.Token.Lined
import TidyScript.Proofs.Tree.Seat

/-!
# How a parse lays out its nodes

A state stands in a row of tokens when a first part of the row has been read and all nodes in its
tables are placed on the row. `Reads` says of a parse that it leads from such states to such
states, and that the nodes of its result lie between the place it starts at and the place it
leaves off at.

A production that builds a node notes where it starts, reads the parts of the node one after the
other and completes it. In between, its parts lie in a row from its start on: a node has `Began`.
Each step puts the nodes that it reads behind those there are, and completing a node puts the node
in their place. `Goes` says this of the steps that are still to come, and it is found from the steps
one by one: which nodes have been read so far is part of what is looked for. That a token is taken
on the way is known already, and is only needed once the node is complete.
-/

namespace TidyScript.Grammar

open Node (Laid)

-- productions are long rows of steps
set_option synthInstance.maxSize 1000000000

variable {α β : Type} {row : TokenRow} {s s' : State} {held held' : List (Node Mark)}

/-! ## States in a row -/

namespace State

/-- How many nodes have been completed. -/
def census (s : State) : Census :=
  ⟨s.exprs.size, s.stmts.size⟩

/-- Where the next token starts. -/
def here (s : State) : Nat :=
  s.current.span.start

/-- The tokens up to the state have been read, all nodes in its tables are placed, and the account
of the nodes in hand is right. -/
structure Stands (row : TokenRow) (held : List (Node Mark)) (s : State) : Prop where
  lined : row.Lined
  stop : s.stop = row.stop
  seam : (row.tokens = s.rest ∧ s.lastEnd = 0) ∨
    ∃ read last, row.tokens = read ++ last :: s.rest ∧ s.lastEnd = last.span.stop
  exprs : ∀ e ∈ s.exprs, (Node.expr e).Placed row.tokens s.census
  stmts : ∀ x ∈ s.stmts, (Node.stmt x).Placed row.tokens s.census
  accounts : s.Accounts held

/-- From the first state on, tokens have been taken and nodes completed. -/
structure Leads (s s' : State) : Prop where
  suffix : s'.rest <:+ s.rest
  within : s.census.Within s'.census

theorem Leads.refl (s : State) : s.Leads s :=
  ⟨List.suffix_refl _, .refl _⟩

theorem Leads.trans {s'' : State} (first : s.Leads s') (second : s'.Leads s'') : s.Leads s'' :=
  ⟨second.suffix.trans first.suffix, first.within.trans second.within⟩

theorem leads_next (s : State) : s.Leads s.next := by
  obtain ⟨rest, _⟩ := s
  cases rest with
  | nil => exact .refl _
  | cons token rest => exact ⟨List.suffix_cons .., .refl _⟩

theorem within_grow (s : State) (e : Expr Mark) : s.census.Within (s.grow e).census :=
  ⟨by simp [census, grow], Nat.le_refl _⟩

theorem within_growStmt (s : State) (x : Stmt Mark) : s.census.Within (s.growStmt x).census :=
  ⟨Nat.le_refl _, by simp [census, growStmt]⟩

namespace Stands

theorem current_of_cons {token : Token} {rest : List Token} (cons : s.rest = token :: rest) :
    s.current = token := by
  rw [current, peek, cons]
  rfl

theorem lastEnd_next (live : s.rest ≠ []) : s.next.lastEnd = s.current.span.stop := by
  obtain ⟨rest, stop, lastEnd, noIn, exprs, stmts⟩ := s
  cases rest with
  | nil => exact absurd rfl live
  | cons token rest => rfl

section

variable (stands : s.Stands row held) {token : Token}
include stands

theorem current_of_nil (empty : s.rest = []) : s.current = row.stop := by
  rw [current, peek, empty, ← stands.stop]
  rfl

/-- A token of the row ends before the end of the token read last, or is still to be read. -/
theorem read_or_mem (mem : token ∈ row.tokens) : token.span.stop ≤ s.lastEnd ∨ token ∈ s.rest := by
  rcases stands.seam with ⟨all, _⟩ | ⟨read, last, parts, ends⟩
  · exact .inr (all ▸ mem)
  · have ordered := (List.pairwise_append.1 (parts ▸ stands.lined.ordered)).2.2
    have written := stands.lined.written last (by rw [parts]; simp)
    rw [parts, List.mem_append, List.mem_cons] at mem
    rcases mem with early | rfl | late
    · have := ordered token early last (by simp)
      exact .inl (by omega)
    · exact .inl (Nat.le_of_eq ends.symm)
    · exact .inr late

theorem mem_tokens : ∀ token ∈ s.rest, token ∈ row.tokens := by
  intro token mem
  rcases stands.seam with ⟨all, _⟩ | ⟨read, last, parts, _⟩
  · rwa [all]
  · rw [parts]
    simp [mem]

theorem pairwise_rest : s.rest.Pairwise fun a b => a.span.stop ≤ b.span.start := by
  rcases stands.seam with ⟨all, _⟩ | ⟨read, last, parts, _⟩
  · exact all ▸ stands.lined.ordered
  · exact (List.pairwise_cons.1 (List.pairwise_append.1 (parts ▸ stands.lined.ordered)).2.1).2

/-- Either nothing has been read, or the token read last is one of the row. -/
theorem exists_last : s.lastEnd = 0 ∨ ∃ token ∈ row.tokens, token.span.stop = s.lastEnd := by
  rcases stands.seam with ⟨_, none⟩ | ⟨read, last, parts, ends⟩
  · exact .inl none
  · exact .inr ⟨last, by rw [parts]; simp, ends.symm⟩

/-- What has not been read starts at or behind the end of the token read last. -/
theorem lastEnd_le :
    (∀ token ∈ s.rest, s.lastEnd ≤ token.span.start) ∧ s.lastEnd ≤ row.stop.span.start := by
  rcases stands.seam with ⟨_, none⟩ | ⟨read, last, parts, ends⟩
  · rw [none]
    exact ⟨fun _ _ => Nat.zero_le _, Nat.zero_le _⟩
  · have ordered := (List.pairwise_append.1 (parts ▸ stands.lined.ordered)).2.1
    rw [ends]
    exact ⟨(List.pairwise_cons.1 ordered).1, stands.lined.closed last (by rw [parts]; simp)⟩

theorem lastEnd_le_here : s.lastEnd ≤ s.here := by
  rw [here]
  rcases empty : s.rest with _ | ⟨token, rest⟩
  · rw [stands.current_of_nil empty]
    exact stands.lastEnd_le.2
  · rw [current_of_cons empty]
    exact stands.lastEnd_le.1 token (by rw [empty]; simp)

/-- A token that ends where the next token starts, or before, has been read. -/
theorem stop_le_lastEnd (mem : token ∈ row.tokens) (before : token.span.stop ≤ s.here) :
    token.span.stop ≤ s.lastEnd := by
  have written := stands.lined.written token mem
  rcases stands.read_or_mem mem with read | late
  · exact read
  · have ordered := stands.pairwise_rest
    rcases cons : s.rest with _ | ⟨next, rest⟩
    · rw [cons] at late
      cases late
    · rw [here, current_of_cons cons] at before
      rw [cons] at late ordered
      rcases List.mem_cons.1 late with rfl | behind
      · omega
      · have := (List.pairwise_cons.1 ordered).1 token behind
        have := stands.lined.written next (stands.mem_tokens next (by rw [cons]; simp))
        omega

/-- A token that has not been read starts where the next token starts, or behind it. -/
theorem here_le : ∀ token ∈ s.rest, s.here ≤ token.span.start := by
  intro token mem
  have ordered := stands.pairwise_rest
  rcases cons : s.rest with _ | ⟨next, rest⟩
  · rw [cons] at mem
    cases mem
  · have written := stands.lined.written next (stands.mem_tokens next (by rw [cons]; simp))
    rw [here, current_of_cons cons]
    rw [cons] at mem ordered
    rcases List.mem_cons.1 mem with rfl | behind
    · exact Nat.le_refl _
    · exact Nat.le_trans (Nat.le_of_lt written) ((List.pairwise_cons.1 ordered).1 token behind)

/-- A token that starts before the end of the token read last has been read. -/
theorem stop_le_of_start_lt (mem : token ∈ row.tokens) (before : token.span.start < s.lastEnd) :
    token.span.stop ≤ s.lastEnd :=
  (stands.read_or_mem mem).resolve_right fun late =>
    Nat.not_lt.2 (stands.lastEnd_le.1 token late) before

theorem here_mono (stands' : s'.Stands row held') (leads : s.Leads s') : s.here ≤ s'.here := by
  obtain ⟨taken, parts⟩ := leads.suffix
  rcases taken with _ | ⟨first, taken⟩
  · replace parts : s'.rest = s.rest := parts
    have same : s'.current = s.current := by
      rw [current, peek, parts, stands'.stop, ← stands.stop]
      rfl
    rw [here, here, same]
  · have cons : s.rest = first :: (taken ++ s'.rest) := parts.symm
    have mem := stands.mem_tokens first (by rw [cons]; simp)
    have written := stands.lined.written first mem
    have ordered := stands.pairwise_rest
    rw [here, current_of_cons cons, here]
    rcases cons' : s'.rest with _ | ⟨next, rest⟩
    · rw [stands'.current_of_nil cons']
      exact Nat.le_trans (Nat.le_of_lt written) (stands.lined.closed first mem)
    · rw [current_of_cons cons']
      rw [cons, cons', List.pairwise_cons] at ordered
      exact Nat.le_trans (Nat.le_of_lt written) (ordered.1 next (by simp))

/-- A parse that takes a token ends behind the start of the next token. -/
theorem here_lt (steps : s.Steps s') (taken : s'.rest.length + 1 ≤ s.rest.length) :
    s.here < s'.lastEnd := by
  rcases steps.taken with ⟨same, _⟩ | ⟨read, token, split, ends⟩
  · rw [same] at taken
    omega
  · have mem : token ∈ s.rest := by rw [split]; simp
    have written := stands.lined.written token (stands.mem_tokens token mem)
    have := stands.here_le token mem
    omega

/-- A parse leads on. -/
theorem lastEnd_le_of_steps (steps : s.Steps s') : s.lastEnd ≤ s'.lastEnd := by
  rcases steps.taken with ⟨_, same⟩ | ⟨read, token, split, ends⟩
  · exact Nat.le_of_eq same.symm
  · have mem : token ∈ s.rest := by rw [split]; simp
    have written := stands.lined.written token (stands.mem_tokens token mem)
    have := stands.lastEnd_le.1 token mem
    omega

theorem ends : s.Ends :=
  (congrArg Token.kind stands.stop).trans stands.lined.ended

/-! ### The next token is there -/

theorem mem_current (live : s.rest ≠ []) : s.current ∈ row.tokens := by
  obtain ⟨token, rest, cons⟩ := List.exists_cons_of_ne_nil live
  rw [current_of_cons cons]
  exact stands.mem_tokens token (by rw [cons]; simp)

/-! ### Steps -/

theorem next : s.next.Stands row held := by
  obtain ⟨rest, stop, lastEnd, noIn, exprs, stmts⟩ := s
  cases rest with
  | nil => exact stands
  | cons token rest =>
    have seam : ∃ read last, row.tokens = read ++ last :: rest ∧
        token.span.stop = last.span.stop := by
      rcases stands.seam with ⟨all, _⟩ | ⟨read, last, parts, _⟩
      · exact ⟨[], token, all, rfl⟩
      · exact ⟨read ++ [last], token, by rw [parts]; simp, rfl⟩
    exact ⟨stands.lined, stands.stop, .inr seam, stands.exprs, stands.stmts,
      stands.accounts.of_tables rfl rfl⟩

theorem advance (advances : s.Advances s') : s'.Stands row held ∧ s.Leads s' := by
  induction advances with
  | refl => exact ⟨stands, .refl s⟩
  | next _ ih => exact ⟨ih.1.next, ih.2.trans (leads_next _)⟩

theorem inMode (noIn : Bool) : (s.inMode noIn).Stands row held :=
  ⟨stands.lined, stands.stop, stands.seam, stands.exprs, stands.stmts,
    stands.accounts.of_tables rfl rfl⟩

/-- Nodes can be put down. -/
theorem less (fewer : held'.Subperm held) : s.Stands row held' :=
  { stands with accounts := stands.accounts.less fewer }

theorem keep : s.Stands row (held ++ []) := by
  rwa [List.append_nil]

end

/-- A placed expression takes the place of its children in the hand. -/
theorem grow {e : Expr Mark} (stands : s.Stands row (held ++ e.children))
    (placed : (Node.expr e).Placed row.tokens (s.grow e).census) (index : e.index = s.exprs.size) :
    (s.grow e).Stands row (held ++ [.expr e]) := by
  have within := s.within_grow e
  refine ⟨stands.lined, stands.stop, stands.seam, fun other mem => ?_, fun x mem =>
    (stands.stmts x mem).mono within, stands.accounts.grow index⟩
  rcases Array.mem_push.1 mem with old | rfl
  · exact (stands.exprs other old).mono within
  · exact placed

/-- A placed statement takes the place of its children in the hand. -/
theorem growStmt {x : Stmt Mark} (stands : s.Stands row (held ++ x.children))
    (placed : (Node.stmt x).Placed row.tokens (s.growStmt x).census)
    (index : x.index = s.stmts.size) : (s.growStmt x).Stands row (held ++ [.stmt x]) := by
  have within := s.within_growStmt x
  refine ⟨stands.lined, stands.stop, stands.seam, fun e mem => (stands.exprs e mem).mono within,
    fun other mem => ?_, stands.accounts.growStmt index⟩
  rcases Array.mem_push.1 mem with old | rfl
  · exact (stands.stmts other old).mono within
  · exact placed

theorem census_enclosing (s : State) (e : Expr Mark) : (s.enclosing e).census = s.census := by
  simp [census, State.enclosing]

/-- A placed expression can be exchanged for one with the same children. -/
theorem enclosing {e e' : Expr Mark} (stands : s.Stands row (held ++ [.expr e]))
    (placed : (Node.expr e').Placed row.tokens s.census) (index : e'.index = e.index)
    (children : e'.children = e.children) :
    (s.enclosing e').Stands row (held ++ [.expr e']) := by
  refine ⟨stands.lined, stands.stop, stands.seam, ?_, ?_, stands.accounts.enclosing index children⟩
  · rw [census_enclosing]
    intro other mem
    rcases Array.mem_or_eq_of_mem_setIfInBounds mem with old | rfl
    · exact stands.exprs other old
    · exact placed
  · rw [census_enclosing]
    exact stands.stmts

end Stands

end State

/-! ## The nodes of results -/

/-- The results of parses hold nodes, in the order of the source. -/
class Bears (α : Type) where
  list : α → List (Node Mark)

/-- The nodes of a result. -/
def nodesOf [Bears α] (a : α) : List (Node Mark) :=
  Bears.list a

/-- The results of this type hold no nodes. -/
class Bare (α : Type) : Prop

instance : Bare Unit := ⟨⟩
instance : Bare Bool := ⟨⟩
instance : Bare String := ⟨⟩
instance : Bare Token := ⟨⟩
instance : Bare State := ⟨⟩

instance [Bare α] : Bears α := ⟨fun _ => []⟩
instance : Bears (Expr Mark) := ⟨fun e => [.expr e]⟩
instance : Bears (Stmt Mark) := ⟨fun x => [.stmt x]⟩
instance [Bears α] : Bears (List α) := ⟨List.flatMap nodesOf⟩
instance [Bears α] : Bears (Option α) := ⟨fun a => a.elim [] nodesOf⟩
instance : Bears (Key Mark) := ⟨Expr.keyNodes⟩
instance : Bears (Element Mark) := ⟨Expr.elementNodes⟩
instance : Bears (ObjectMember Mark) := ⟨Expr.memberNodes⟩
instance : Bears (FunctionBody Mark) := ⟨Expr.bodyNodes⟩
instance : Bears (Declarator Mark) := ⟨fun d => nodesOf d.pattern ++ nodesOf d.init⟩
instance : Bears (ForHead Mark) := ⟨fun head => [Stmt.headNode head]⟩
instance : Bears (Handler Mark) := ⟨fun h => nodesOf h.param ++ nodesOf h.body⟩
instance : Bears (SwitchCase Mark) := ⟨fun arm => nodesOf arm.test ++ nodesOf arm.consequent⟩

theorem nodesOf_exprs (es : List (Expr Mark)) : nodesOf es = es.map .expr :=
  List.map_eq_flatMap.symm

theorem nodesOf_stmts (xs : List (Stmt Mark)) : nodesOf xs = xs.map .stmt :=
  List.map_eq_flatMap.symm

theorem nodesOf_expr? (e? : Option (Expr Mark)) : nodesOf e? = Stmt.exprNodes e? := by
  cases e? <;> rfl

theorem nodesOf_stmt? (x? : Option (Stmt Mark)) : nodesOf x? = Stmt.stmtNodes x? := by
  cases x? <;> rfl

theorem nodesOf_declarators (ds : List (Declarator Mark)) :
    nodesOf ds = ds.flatMap fun d => .expr d.pattern :: Stmt.exprNodes d.init :=
  congrArg ds.flatMap (funext fun d => congrArg _ (nodesOf_expr? d.init))

theorem nodesOf_handler? (handler : Option (Handler Mark)) : nodesOf handler =
    handler.toList.flatMap fun h => Stmt.exprNodes h.param ++ [.stmt h.body] := by
  cases handler with
  | none => rfl
  | some h =>
    show nodesOf h.param ++ _ = _
    rw [nodesOf_expr?]
    exact (List.append_nil _).symm

theorem nodesOf_cases (cases : List (SwitchCase Mark)) : nodesOf cases =
    cases.flatMap fun arm => Stmt.exprNodes arm.test ++ arm.consequent.map .stmt :=
  congrArg cases.flatMap (funext fun arm => by rw [← nodesOf_expr?, ← nodesOf_stmts]; rfl)

/-- The parts of a result, behind other nodes. -/
class Splits [Bears α] (front : List (Node Mark)) (a : α) (whole : outParam (List (Node Mark))) :
    Prop where
  eq : front ++ nodesOf a = whole

section Splits

variable {front : List (Node Mark)} [Bears α] {a b : α} {as : List α} {e : Expr Mark}
  {x : Stmt Mark} {xs : List (Stmt Mark)} {e? : Option (Expr Mark)} {word : String}

instance [Bare β] {b : β} : Splits front b front := ⟨List.append_nil _⟩
instance : Splits front (some a) (front ++ nodesOf a) := ⟨rfl⟩
instance : Splits front (none : Option α) front := ⟨List.append_nil _⟩
instance : Splits front ((some a).getD b) (front ++ nodesOf a) := ⟨rfl⟩
instance : Splits front (none.getD a) (front ++ nodesOf a) := ⟨rfl⟩
instance : Splits front (a :: as) (front ++ nodesOf a ++ nodesOf as) :=
  ⟨(List.append_assoc ..).symm⟩
instance : Splits front ([] : List α) front := ⟨List.append_nil _⟩
instance : Splits front (Element.item e) (front ++ nodesOf e) := ⟨rfl⟩
instance : Splits front (.hole : Element Mark) front := ⟨List.append_nil _⟩
instance : Splits front (Key.computed e) (front ++ nodesOf e) := ⟨rfl⟩
instance : Splits front (.named word : Key Mark) front := ⟨List.append_nil _⟩
instance : Splits front (ObjectMember.spread e) (front ++ nodesOf e) := ⟨rfl⟩
instance : Splits front (FunctionBody.block xs) (front ++ nodesOf xs) :=
  ⟨congrArg _ (nodesOf_stmts xs).symm⟩
instance : Splits front (FunctionBody.expression e) (front ++ nodesOf e) := ⟨rfl⟩
instance : Splits front (ForHead.declaration x) (front ++ nodesOf x) := ⟨rfl⟩
instance : Splits front (ForHead.pattern e) (front ++ nodesOf e) := ⟨rfl⟩
instance : Splits front (Declarator.mk e e?) (front ++ nodesOf e ++ nodesOf e?) :=
  ⟨(List.append_assoc ..).symm⟩
instance : Splits front (Handler.mk e? x) (front ++ nodesOf e? ++ nodesOf x) :=
  ⟨(List.append_assoc ..).symm⟩
instance : Splits front (SwitchCase.mk e? xs) (front ++ nodesOf e? ++ nodesOf xs) :=
  ⟨(List.append_assoc ..).symm⟩

end Splits

/-- Of the parts that have been read, these are used, in their order. -/
class Sub (part front : List (Node Mark)) : Prop where
  sub : part.Sublist front

namespace Sub

variable {part front whole : List (Node Mark)} [Bears α] {a : α}

instance nil : Sub [] front :=
  ⟨List.nil_sublist _⟩

instance keep [sub : Sub part front] : Sub (part ++ nodesOf a) (front ++ nodesOf a) :=
  ⟨sub.sub.append_right _⟩

instance split [splits : Splits part a whole] [sub : Sub whole front] :
    Sub (part ++ nodesOf a) front :=
  ⟨splits.eq ▸ sub.sub⟩

instance split_front [splits : Splits front a whole] [sub : Sub part whole] :
    Sub part (front ++ nodesOf a) :=
  ⟨splits.eq ▸ sub.sub⟩

end Sub

/-- The expression is the first part that has been read. -/
class Heads (e : Expr Mark) (front : List (Node Mark)) : Prop where
  heads : ∃ more, front = .expr e :: more

instance {e : Expr Mark} : Heads e ([] ++ nodesOf e) := ⟨_, rfl⟩

instance [Bears α] {e : Expr Mark} {front : List (Node Mark)} {a : α} [heads : Heads e front] :
    Heads e (front ++ nodesOf a) := by
  obtain ⟨more, rfl⟩ := heads.heads
  exact ⟨_, rfl⟩

/-- Object literals, blocks and `try`s: more is asked of the nodes below them. -/
def isApart : Node Mark → Bool
  | .expr (.object _ _) => true
  | .stmt (.block _ _) => true
  | .stmt (.attempt _ _ _ _) => true
  | _ => false

/-- Of other nodes no more is asked. -/
theorem shaped_of_isApart {tokens : List Token} {node : Node Mark} (other : isApart node = false) :
    node.Shaped tokens := by
  cases node with
  | expr e => cases e <;> first | exact trivial | cases other
  | stmt x => cases x <;> first | exact trivial | cases other

/-- The node that is built has the given mark and these nodes below it. -/
class MadeOf (build : Mark → Node Mark) (apart : outParam Bool)
    (children : outParam (List (Node Mark))) : Prop where
  made : ∀ mark, (build mark).mark = mark ∧ isApart (build mark) = apart ∧
    (build mark).children = children := by
      try simp only [nodesOf_exprs, nodesOf_stmts, nodesOf_expr?, nodesOf_stmt?, nodesOf_declarators,
        nodesOf_handler?, nodesOf_cases]
      exact fun _ => ⟨rfl, rfl, rfl⟩

section Constructors

variable {e e' e'' : Expr Mark} {x x' : Stmt Mark} {e? e'? : Option (Expr Mark)}
  {x? : Option (Stmt Mark)} {es : List (Expr Mark)} {xs : List (Stmt Mark)} {word : String}
  {flag flag' : Bool} {head : ForHead Mark}

instance {op : UnaryOp} : MadeOf (fun mark => .expr (.unary mark op e)) false ([] ++ nodesOf e) where
instance : MadeOf (fun mark => .expr (.update mark flag flag' e)) false ([] ++ nodesOf e) where
instance : MadeOf (fun mark => .expr (.conditional mark e e' e'')) false
    ([] ++ nodesOf e ++ nodesOf e' ++ nodesOf e'') where
instance : MadeOf (fun mark => .expr (.assignment mark word e e')) false
    ([] ++ nodesOf e ++ nodesOf e') where
instance : MadeOf (fun mark => .expr (.member mark e (.named word) flag)) false
    ([] ++ nodesOf e) where
instance : MadeOf (fun mark => .expr (.member mark e (.computed e') flag)) false
    ([] ++ nodesOf e ++ nodesOf e') where
instance : MadeOf (fun mark => .expr (.call mark e es flag)) false
    ([] ++ nodesOf e ++ nodesOf es) where
instance : MadeOf (fun mark => .expr (.construct mark e es)) false
    ([] ++ nodesOf e ++ nodesOf es) where
instance {elements : List (Element Mark)} :
    MadeOf (fun mark => .expr (.array mark elements)) false ([] ++ nodesOf elements) where
instance {members : List (ObjectMember Mark)} :
    MadeOf (fun mark => .expr (.object mark members)) true ([] ++ nodesOf members) where
instance {name : Option String} {body : FunctionBody Mark} :
    MadeOf (fun mark => .expr (.function mark name es body flag)) false
      ([] ++ nodesOf es ++ nodesOf body) where
instance : MadeOf (fun mark => .expr (.sequence mark es)) false ([] ++ nodesOf es) where
instance : MadeOf (fun mark => .expr (.spread mark e)) false ([] ++ nodesOf e) where
instance : MadeOf (fun mark => .expr (.hidden mark)) false [] where

instance : MadeOf (fun mark => .stmt (.expression mark e)) false ([] ++ nodesOf e) where
instance {kind : DeclarationKind} {ds : List (Declarator Mark)} :
    MadeOf (fun mark => .stmt (.declaration mark kind ds)) false ([] ++ nodesOf ds) where
instance : MadeOf (fun mark => .stmt (.function mark word es xs)) false
    ([] ++ nodesOf es ++ nodesOf xs) where
instance : MadeOf (fun mark => .stmt (.returning mark e?)) false ([] ++ nodesOf e?) where
instance : MadeOf (fun mark => .stmt (.branch mark e x x?)) false
    ([] ++ nodesOf e ++ nodesOf x ++ nodesOf x?) where
instance : MadeOf (fun mark => .stmt (.block mark xs)) true ([] ++ nodesOf xs) where
instance : MadeOf (fun mark => .stmt (.forLoop mark x? e? e'? x)) false
    ([] ++ nodesOf x? ++ nodesOf e? ++ nodesOf e'? ++ nodesOf x) where
instance : MadeOf (fun mark => .stmt (.forIn mark head e x)) false
    ([] ++ nodesOf head ++ nodesOf e ++ nodesOf x) where
instance : MadeOf (fun mark => .stmt (.forOf mark head e x)) false
    ([] ++ nodesOf head ++ nodesOf e ++ nodesOf x) where
instance : MadeOf (fun mark => .stmt (.whileLoop mark e x)) false
    ([] ++ nodesOf e ++ nodesOf x) where
instance : MadeOf (fun mark => .stmt (.doWhile mark x e)) false ([] ++ nodesOf x ++ nodesOf e) where
instance {handler : Option (Handler Mark)} :
    MadeOf (fun mark => .stmt (.attempt mark x handler x?)) true
      ([] ++ nodesOf x ++ nodesOf handler ++ nodesOf x?) where
instance : MadeOf (fun mark => .stmt (.throwing mark e)) false ([] ++ nodesOf e) where
instance {c : Prop} [Decidable c] {label : Option String} :
    MadeOf (fun mark => .stmt (if c then .breaking mark label else .continuing mark label))
      false [] := by
  split <;> exact ⟨fun _ => ⟨rfl, rfl, rfl⟩⟩
instance {cases : List (SwitchCase Mark)} :
    MadeOf (fun mark => .stmt (.switch mark e cases)) false ([] ++ nodesOf e ++ nodesOf cases) where
instance : MadeOf (fun mark => .stmt (.labeled mark word x)) false ([] ++ nodesOf x) where
instance : MadeOf (fun mark => .stmt (.empty mark)) false [] where
instance : MadeOf (fun mark => .stmt (.hidden mark)) false [] where

end Constructors

/-! ## Parses that read nodes -/

variable {ordered : Bool} {low : Nat} {front part : List (Node Mark)}

/-- From the first state, a parse has led to one that stands in the row, with more nodes in hand
behind those held before. They lie from `low` on. -/
structure Lays (row : TokenRow) (held : List (Node Mark)) (ordered : Bool) (low : Nat)
    (nodes : List (Node Mark)) (s s' : State) : Prop where
  stands : s'.Stands row (held ++ nodes)
  leads : s.Leads s'
  laid : Laid row.tokens s'.census ordered low nodes s'.here

namespace Lays

theorem behind {s'' : State} (lays : Lays row held ordered low front s' s'')
    (leads : s.Leads s') : Lays row held ordered low front s s'' :=
  { lays with leads := leads.trans lays.leads }

/-- Nodes can be put down. -/
theorem sub (lays : Lays row held ordered low front s s') (sub : part.Sublist front) :
    Lays row held ordered low part s s' :=
  ⟨lays.stands.less (sub.append_left held).subperm, lays.leads, lays.laid.sub sub⟩

theorem widen {low' : Nat} (lays : Lays row held ordered low' front s s') (le : low ≤ low') :
    Lays row held ordered low front s s' :=
  { lays with laid := lays.laid.widen le (Nat.le_refl _) }

/-- Order can be forgotten. -/
theorem relax (lays : Lays row held ordered low front s s') : Lays row held false low front s s' :=
  { lays with laid := lays.laid.relax (by simp) }

/-- Tokens may be taken behind the nodes. -/
theorem advance {s'' : State} (lays : Lays row held ordered low front s s')
    (advances : s'.Advances s'') : Lays row held ordered low front s s'' := by
  obtain ⟨stands, leads⟩ := lays.stands.advance advances
  exact ⟨stands, lays.leads.trans leads, (lays.laid.mono leads.within).widen (Nat.le_refl _)
    (lays.stands.here_mono stands leads)⟩

/-- The mode does not matter. -/
theorem inMode {noIn noIn' : Bool} (lays : Lays row held ordered low front (s.inMode noIn) s') :
    Lays row held ordered low front s (s'.inMode noIn') :=
  ⟨lays.stands.inMode noIn', ⟨lays.leads.suffix, lays.leads.within⟩, lays.laid⟩

/-- What is laid out is put behind nodes that are there already. -/
theorem beside {others : List (Node Mark)} (lays : Lays row (held ++ others) true low front s s')
    (stands : s.Stands row held') (kept : Laid row.tokens s.census true low others s.here) :
    Lays row held false low (others ++ front) s s' where
  stands := List.append_assoc .. ▸ lays.stands
  leads := lays.leads
  laid := ((kept.mono lays.leads.within).widen (Nat.le_refl _)
    (stands.here_mono lays.stands lays.leads)).union lays.laid

end Lays

/-- The parts of a node that starts at `low` are in hand and lie in a row up to here. -/
structure Began (row : TokenRow) (held : List (Node Mark)) (ordered : Bool) (low : Nat)
    (front : List (Node Mark)) (s : State) : Prop where
  stands : s.Stands row (held ++ front)
  laid : Laid row.tokens s.census ordered low front s.here
  start : low = s.here ∨ ∃ token ∈ row.tokens, token.span.start = low

/-- Nothing has been read of a node that starts here. -/
theorem State.Stands.began (stands : s.Stands row held) : Began row held ordered s.here [] s :=
  ⟨stands.keep, .nil (Nat.le_refl _), .inl rfl⟩

namespace Began

variable {nodes : List (Node Mark)} {node : Node Mark} {e : Expr Mark} {x : Stmt Mark}

theorem sub (began : Began row held ordered low front s) (sub : part.Sublist front) :
    Began row held ordered low part s :=
  ⟨began.stands.less (sub.append_left held).subperm, began.laid.sub sub, began.start⟩

/-- The start of a node stays the start of a token as reading goes on. -/
theorem start_of_leads (began : Began row held ordered low front s) (stands' : s'.Stands row held')
    (leads : s.Leads s') : low = s'.here ∨ ∃ token ∈ row.tokens, token.span.start = low := by
  rcases began.start with rfl | start
  · by_cases live : s.rest = []
    · have empty : s'.rest = [] := List.suffix_nil.1 (live ▸ leads.suffix)
      left
      rw [State.here, State.here, began.stands.current_of_nil live, stands'.current_of_nil empty]
    · exact .inr ⟨s.current, began.stands.mem_current live, rfl⟩
  · exact .inr start

/-- What is read next lies behind what has been read. -/
theorem read (began : Began row held ordered low front s)
    (lays : Lays row (held ++ front) ordered s.here nodes s s') :
    Began row held ordered low (front ++ nodes) s' :=
  ⟨List.append_assoc .. ▸ lays.stands, (began.laid.mono lays.leads.within).append lays.laid,
    began.start_of_leads lays.stands lays.leads⟩

/-- What is read in the place of all parts. -/
theorem replace (began : Began row held ordered low front s)
    (lays : Lays row held ordered low nodes s s') : Began row held ordered low nodes s' :=
  ⟨lays.stands, lays.laid, began.start_of_leads lays.stands lays.leads⟩

/-- A token of a node with a first part has been taken. -/
theorem passed (began : Began row held ordered low (node :: front) s) : low < s.lastEnd := by
  have ⟨lower, upper⟩ := began.laid.spread.inside node (by simp)
  have outer := (began.laid.placed node (by simp)).seated.outer
  obtain ⟨token, mem, stops⟩ := outer.stop
  have read := began.stands.stop_le_lastEnd mem (stops ▸ upper)
  have := outer.some
  omega

/-- A node may start at its first part. -/
theorem narrow (began : Began row held true low (node :: front) s) :
    Began row held true node.mark.outer.start (node :: front) s :=
  ⟨began.stands, began.laid.narrow,
    .inr (began.laid.placed node (by simp)).seated.outer.start⟩

/-! ### Completing nodes -/

/-- The span of the node, should it end here, stands on tokens. -/
theorem edged (began : Began row held ordered low front s) (passed : low < s.lastEnd) :
    (Span.mk low s.lastEnd).Edged row.tokens := by
  have le := began.stands.lastEnd_le_here
  refine ⟨began.start.resolve_left (by omega), ?_, passed⟩
  exact began.stands.exists_last.resolve_left (by omega)

/-- The parts end where the token read last ends. -/
theorem laid_lastEnd (began : Began row held ordered low front s) (passed : low < s.lastEnd) :
    Laid row.tokens s.census ordered low front s.lastEnd :=
  began.laid.lower_high (Nat.le_of_lt passed) fun _ mem before =>
    began.stands.stop_le_lastEnd mem before

/-- A node over the parts read is placed, and takes their place. -/
theorem complete (began : Began row held ordered low node.children s) (passed : low < s.lastEnd)
    {index : Nat} (mark : node.mark = ⟨index, ⟨low, s.lastEnd⟩, ⟨low, s.lastEnd⟩⟩)
    (within : s.census.Within s'.census) (counted : node.id.Counted s'.census)
    (order : node.keepsOrder = true → ordered = true) {apart : Bool}
    (isApart : isApart node = apart) (shaped : apart = true → node.Shaped row.tokens)
    (rest : s'.rest = s.rest)
    (here : s'.here = s.here)
    (stands : node.Placed row.tokens s'.census → s'.Stands row (held ++ [node])) :
    Lays row held true low [node] s s' := by
  have span : node.mark.span = ⟨low, s.lastEnd⟩ := by rw [mark]
  have placed : node.Placed row.tokens s'.census := by
    refine .over (by rw [mark]) (span ▸ began.edged passed) counted ?_ order
      (apart.eq_false_or_eq_true.elim shaped fun plain => shaped_of_isApart (isApart.trans plain))
    rw [span]
    exact (began.laid_lastEnd passed).mono within
  refine ⟨stands placed, ⟨rest ▸ List.suffix_refl _, within⟩, .single placed ?_ ?_⟩
  · rw [mark]
  · rw [mark, here]
    exact began.stands.lastEnd_le_here

/-- Completing an expression puts it in the place of its parts. -/
theorem finishExpr (began : Began row held ordered low front s) (passed : low < s.lastEnd)
    {build : Mark → Expr Mark} {apart : Bool}
    [made : MadeOf (fun mark => .expr (build mark)) apart part] (sub : part.Sublist front)
    (order : (Node.expr (build (s.markFrom low))).keepsOrder = true → ordered = true)
    (shaped : apart = true → (Node.expr (build (s.markFrom low))).Shaped row.tokens)
    (run : Grammar.finishExpr low build s = .ok e s') : Lays row held true low [.expr e] s s' := by
  obtain ⟨rfl, rfl⟩ := finishExpr_eq_ok.1 run
  obtain ⟨mark, isApart, rfl⟩ := made.made (s.markFrom low)
  have index : (build (s.markFrom low)).index = s.exprs.size := congrArg Mark.index mark
  exact (began.sub sub).complete passed mark (s.within_grow _)
    (index.trans_lt (by simp [State.census, State.grow])) order isApart shaped rfl rfl
    fun placed => (began.sub sub).stands.grow placed index

/-- Completing a statement puts it in the place of its parts. -/
theorem finishStmt (began : Began row held true low front s) (passed : low < s.lastEnd)
    {build : Mark → Stmt Mark} {apart : Bool}
    [made : MadeOf (fun mark => .stmt (build mark)) apart part] (sub : part.Sublist front)
    (shaped : apart = true → (Node.stmt (build (s.stmtMarkFrom low))).Shaped row.tokens)
    (run : Grammar.finishStmt low build s = .ok x s') : Lays row held true low [.stmt x] s s' := by
  obtain ⟨rfl, rfl⟩ := finishStmt_eq_ok.1 run
  obtain ⟨mark, isApart, rfl⟩ := made.made (s.stmtMarkFrom low)
  have index : (build (s.stmtMarkFrom low)).index = s.stmts.size := congrArg Mark.index mark
  exact (began.sub sub).complete passed mark (s.within_growStmt _)
    (index.trans_lt (by simp [State.census, State.growStmt])) (fun _ => rfl) isApart shaped rfl rfl
    fun placed => (began.sub sub).stands.growStmt placed index

end Began

/-- From every state in the row, whatever is in hand, the nodes of the result lie from the next
token on. -/
class Reads (row : TokenRow) [Bears α] (x : Parse α) : Prop where
  reads : ∀ {s : State} {held : List (Node Mark)} {a : α} {s' : State}, s.Stands row held →
    x s = .ok a s' → Lays row held true s.here (nodesOf a) s s'

/-- The same, if a token has been taken. -/
class Starts (row : TokenRow) [Bears α] (x : Parse α) : Prop where
  starts : ∀ {s : State} {held : List (Node Mark)} {a : α} {s' : State}, s.Stands row held →
    x s = .ok a s' → s.here < s'.lastEnd → Lays row held true s.here (nodesOf a) s s'

/-- Behind the parts `front` of a node that starts at `low`, the parse lays out `nodes`. If that is
`due`, a token of the node has been taken in the end. -/
class Goes (row : TokenRow) (due : Bool) (low : Nat) (front : List (Node Mark))
    (nodes : α → List (Node Mark)) (x : Parse α) : Prop where
  goes : ∀ {s : State} {held : List (Node Mark)} {a : α} {s' : State},
    Began row held true low front s → x s = .ok a s' → (due = true → low < s'.lastEnd) →
      Lays row held true low (nodes a) s s'

/-- The parse puts the nodes of its result in the place of those of another. -/
class Replaces (row : TokenRow) [Bears α] [Bears β] (b : β) (x : Parse α) : Prop where
  replaces : ∀ {s : State} {held : List (Node Mark)} {low : Nat} {a : α} {s' : State},
    Began row held true low (nodesOf b) s → x s = .ok a s' →
      Lays row held true low (nodesOf a) s s'

/-- The token that the parse answers comes next. -/
class Looks (x : Parse Token) : Prop where
  looks : ∀ {s : State} {token : Token} {s' : State}, x s = .ok token s' → token = s.current

instance : Looks current := ⟨fun run => (current_eq_ok.1 run).1.symm⟩
instance : Looks bump := ⟨fun run => (bump_eq_ok.1 run).1.symm⟩
instance {text : String} : Looks (expectPunct text) :=
  ⟨fun run => (expectPunct_eq_ok.1 run).2.1.symm⟩

namespace Goes

variable {due : Bool} {nodes : α → List (Node Mark)} {x y : Parse α} {f : β → Parse α}

instance unfolds [unfolds : Unfolds x y] [goes : Goes row due low front nodes y] :
    Goes row due low front nodes x :=
  unfolds.eq ▸ goes

instance bind [Bears β] {x : Parse β} [reads : Reads row x]
    [further : ∀ b, Goes row due low (front ++ nodesOf b) nodes (f b)] :
    Goes row due low front nodes (x >>= f) where
  goes began run last := by
    obtain ⟨b, s', first, run⟩ := bind_eq_ok.1 run
    have lays := reads.reads began.stands first
    exact ((further b).goes (began.read lays) run last).behind lays.leads

/-- A step that reads no node. -/
instance (priority := high) skip [Bare β] {x : Parse β} [reads : Reads row x]
    [further : ∀ b, Goes row due low front nodes (f b)] :
    Goes row due low front nodes (x >>= f) where
  goes began run last := by
    obtain ⟨b, s', first, run⟩ := bind_eq_ok.1 run
    have lays := reads.reads began.stands first
    have began' : Began row _ true low (front ++ []) s' := began.read lays
    exact ((further b).goes (List.append_nil front ▸ began') run last).behind lays.leads

/-- A step that exchanges all that has been read. -/
instance replace [Bears β] {γ : Type} [Bears γ] {c : γ} {x : Parse β} [replaces : Replaces row c x]
    [further : ∀ b, Goes row due low ([] ++ nodesOf b) nodes (f b)] :
    Goes row due low ([] ++ nodesOf c) nodes (x >>= f) where
  goes began run last := by
    obtain ⟨b, s', first, run⟩ := bind_eq_ok.1 run
    have lays := replaces.replaces began first
    exact ((further b).goes (began.replace lays) run last).behind lays.leads

instance replace_last [Bears α] [Bears β] {b : β} [replaces : Replaces row b x] :
    Goes row due low ([] ++ nodesOf b) nodesOf x where
  goes began run _ := replaces.replaces began run

/-- The parts of the result are parts that have been read. -/
instance pure {a : α} [sub : Sub ([] ++ nodes a) front] :
    Goes row due low front nodes (Pure.pure a) where
  goes began run _ := by
    obtain ⟨rfl, rfl⟩ := pure_eq_ok.1 run
    have began := began.sub sub.sub
    exact ⟨began.stands, .refl _, began.laid⟩

instance (priority := high) pure_bind {b : β}
    [goes : Goes row due low front nodes (f b)] :
    Goes row due low front nodes (Pure.pure b >>= f) :=
  ⟨goes.goes⟩

/-- The result is made from what is read last. -/
instance map [Bears β] {x : Parse β} {f : β → α} [goes : Goes row due low front nodesOf x]
    [sub : ∀ b, Sub ([] ++ nodes (f b)) ([] ++ nodesOf b)] :
    Goes row due low front nodes (x >>= fun b => Pure.pure (f b)) where
  goes began run last := by
    obtain ⟨b, s', first, run⟩ := bind_eq_ok.1 run
    obtain ⟨rfl, rfl⟩ := pure_eq_ok.1 run
    exact (goes.goes began first last).sub (sub b).sub

instance ite {c : Prop} [Decidable c] [Goes row due low front nodes x]
    [Goes row due low front nodes y] :
    Goes row due low front nodes (if c then x else y) := by split <;> assumption

instance expected {what : String} :
    Goes row due low front nodes (Grammar.expected what) :=
  ⟨fun _ run => absurd run expected_ne_ok⟩

instance unexpected : Goes row due low front nodes Grammar.unexpected :=
  ⟨fun _ run => absurd run unexpected_ne_ok⟩

/-- The last step of a production that completes no node itself. -/
instance (priority := low) of_reads [Bears α] [reads : Reads row x] :
    Goes row due low front nodesOf x where
  goes began run _ := by
    have lays := reads.reads (began.sub (List.nil_sublist _)).stands run
    rw [List.append_nil] at lays
    exact lays.widen began.laid.spread.le

instance finishExpr {build : Mark → Expr Mark}
    [MadeOf (fun mark => .expr (build mark)) false part] [sub : Sub part front] :
    Goes row true low front nodesOf (Grammar.finishExpr low build) where
  goes began run last := by
    have passed := last rfl
    obtain ⟨_, rfl⟩ := finishExpr_eq_ok.1 run
    exact began.finishExpr passed sub.sub (fun _ => rfl) (by simp) run

/-- A node that starts where its first part starts. -/
instance finishExpr_first {e : Expr Mark} {build : Mark → Expr Mark} [heads : Heads e front]
    [MadeOf (fun mark => .expr (build mark)) false part] [sub : Sub part front] :
    Goes row due low front nodesOf (Grammar.finishExpr e.outer.start build) where
  goes began run _ := by
    obtain ⟨more, rfl⟩ := heads.heads
    have lays : Lays row _ true e.outer.start _ _ _ :=
      began.narrow.finishExpr began.narrow.passed sub.sub (fun _ => rfl) (by simp) run
    exact lays.widen (began.laid.spread.inside (.expr e) (by simp)).1

instance finishStmt {build : Mark → Stmt Mark}
    [MadeOf (fun mark => .stmt (build mark)) false part] [sub : Sub part front] :
    Goes row true low front nodesOf (Grammar.finishStmt low build) where
  goes began run last := by
    have passed := last rfl
    obtain ⟨_, rfl⟩ := finishStmt_eq_ok.1 run
    exact began.finishStmt passed sub.sub (by simp) run

end Goes

namespace Starts

variable [Bears α] {x y : Parse α}

instance unfolds [unfolds : Unfolds x y] [starts : Starts row y] : Starts row x :=
  unfolds.eq ▸ starts

/-- A production notes where its first token starts. -/
instance looked {first : Parse Token} [looks : Looks first] [reads : Reads row first]
    {f : Token → Parse α}
    [further : ∀ token, Goes row true token.span.start [] nodesOf (f token)] :
    Starts row (first >>= f) where
  starts stands run passed := by
    obtain ⟨_, s', first, run⟩ := bind_eq_ok.1 run
    obtain rfl := looks.looks first
    have began : Began row _ true _ [] _ := stands.began
    have lays := reads.reads began.stands first
    exact ((further _).goes (began.read lays) run fun _ => passed).behind lays.leads

/-- A production notes the state. -/
theorem get {f : State → Parse α}
    (further : ∀ state, Goes row true state.current.span.start [] nodesOf (f state)) :
    Starts row (MonadState.get >>= f) where
  starts stands run passed := (further _).goes stands.began run fun _ => passed

instance peek {first : Parse Bool} [peeks : Peeks first] {f : Bool → Parse α}
    [further : ∀ b, Starts row (f b)] : Starts row (first >>= f) where
  starts stands run passed := by
    obtain ⟨b, _, first, rest⟩ := bind_eq_ok.1 run
    obtain rfl := peeks.peeks first
    exact (further b).starts stands rest passed

instance ite {c : Prop} [Decidable c] [Starts row x] [Starts row y] :
    Starts row (if c then x else y) := by split <;> assumption

instance (priority := low) of_reads [reads : Reads row x] : Starts row x :=
  ⟨fun stands run _ => reads.reads stands run⟩

end Starts

namespace Reads

variable [Bears α] {x y : Parse α}

/-- A parse that takes tokens at most. -/
instance of_still [Bare β] {x : Parse β} [still : Still x] : Reads row x where
  reads stands run := by
    have ⟨stands', leads⟩ := stands.advance (still.along run)
    exact ⟨stands'.keep, leads, .nil (stands.here_mono stands' leads)⟩

/-- A parse that notes no start. -/
instance of_goes [goes : ∀ low, Goes row false low [] nodesOf x] : Reads row x :=
  ⟨fun stands run => (goes _).goes stands.began run (by simp)⟩

/-- A production that takes a token. -/
instance (priority := low) of_starts [steps : Steps x] [takes : Takes 1 x]
    [starts : Starts row x] : Reads row x where
  reads stands run := starts.starts stands run
    (stands.here_lt (steps.along run) (takes.takes stands.ends run))

instance expected {what : String} : Reads row (Grammar.expected what : Parse α) :=
  ⟨fun _ run => absurd run expected_ne_ok⟩

instance withNoIn [reads : Reads row x] {noIn : Bool} :
    Reads row (Grammar.withNoIn noIn x) where
  reads stands run := by
    obtain ⟨middle, inner, rfl⟩ := withNoIn_eq_ok.1 run
    exact (reads.reads (stands.inMode noIn) inner).inMode

/-! ### Loops -/

variable {stop : Parse Bool} {item : Parse α}

/-- Items that lie one behind the other. -/
instance manyUpTo [Reads row stop] [Reads row item] {bound : Nat} :
    Reads row (Grammar.manyUpTo stop item bound) := by
  induction bound with
  | zero => exact ⟨fun _ run => absurd run unexpected_ne_ok⟩
  | succ bound ih =>
    unfold Grammar.manyUpTo
    infer_instance

instance manyUntil [Reads row stop] [Reads row item] :
    Reads row (Grammar.manyUntil stop item) :=
  ⟨fun stands run => manyUpTo.reads stands (manyUntil_eq_ok.1 run)⟩

end Reads

/-- A value that is extended step by step, by links that start where the first value starts. -/
instance {step : Expr Mark → Parse (Option (Expr Mark))} {head : Expr Mark}
    [steps : ∀ value, Steps (step value)]
    [goes : ∀ value, Goes row true head.outer.start ([] ++ nodesOf value)
      (fun longer? => nodesOf (longer?.getD value)) (step value)] :
    Replaces row head (extend step head) where
  replaces {s held low a s'} began run := by
    have upTo : ∀ {bound value s a s'}, Began row held true head.outer.start (nodesOf value) s →
        extendUpTo step bound value s = .ok a s' →
          Lays row held true head.outer.start (nodesOf a) s s' := by
      intro bound
      induction bound with
      | zero => exact fun _ run => absurd run unexpected_ne_ok
      | succ bound ih =>
        intro value s a s'' began run
        obtain ⟨longer?, s', first, run⟩ := bind_eq_ok.1 run
        have passed : head.outer.start < s'.lastEnd := Nat.lt_of_lt_of_le (Began.passed began)
          (began.stands.lastEnd_le_of_steps ((steps value).along first))
        have lays := (goes value).goes began first fun _ => passed
        cases longer? with
        | none =>
          obtain ⟨rfl, rfl⟩ := pure_eq_ok.1 run
          exact lays
        | some longer => exact (ih (began.replace lays) run).behind lays.leads
    have inside := began.laid.spread.inside (.expr head) (List.mem_singleton_self _)
    exact (upTo (Began.narrow began) run).widen inside.1

end TidyScript.Grammar
