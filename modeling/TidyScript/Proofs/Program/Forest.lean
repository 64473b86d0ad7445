import TidyScript.Proofs.Grammar.StatementLayout
import TidyScript.Proofs.Program.Parents
import TidyScript.Proofs.Program.Seat
import TidyScript.Proofs.Text.Answer
import TidyScript.Proofs.Tree.Size

/-!
# The nodes of a program form a forest

The tables of a program hold every node that has been completed, those of hidden constructs
included. When reading has ended, the account says that the statements at the top and the children
of all nodes are different entries of the tables. So every child is found under its name, nobody is
the child of two nodes, and the table of parents is right about everybody. A parent is larger than
its child, and there are only finitely many nodes: the way up ends at a node without a parent.
-/

namespace TidyScript

open Grammar (State)

/-- The place of a node inside its parent: an expression takes its parentheses along. -/
def Node.extent : Node Mark → Span
  | .expr e => e.outer
  | .stmt s => s.span

namespace Program

/-! ## Nodes and their names -/

/-- All nodes of the program. -/
def nodes (program : Program) : List (Node Mark) :=
  program.exprs.toList.map .expr ++ program.stmts.toList.map .stmt

/-- The node with the given name. -/
def node? (program : Program) : NodeId → Option (Node Mark)
  | .expr index => program.exprs[index]?.map .expr
  | .stmt index => program.stmts[index]?.map .stmt

/-- The name that is reached with the given number of steps from a node to its parent. -/
def climb (program : Program) : Nat → NodeId → Option NodeId
  | 0, id => some id
  | steps + 1, id => (program.parent? id).bind fun parent => program.climb steps parent.id

/-- The nodes form a forest that stands on the tokens. -/
structure IsForest (program : Program) : Prop where
  stored : ∀ node ∈ program.nodes, program.node? node.id = some node
  linked : ∀ node ∈ program.nodes, ∀ child ∈ node.children, program.node? child.id = some child
  top : ∀ x ∈ program.body, program.node? (.stmt x.index) = some (.stmt x)
  once : (program.nodes.flatMap fun node => node.children.map Node.id).Nodup
  parents : ∀ id node, program.parent? id = some node ↔
    node ∈ program.nodes ∧ ∃ child ∈ node.children, child.id = id
  rooted : ∀ node ∈ program.nodes, ∃ steps root,
    program.climb steps node.id = some root ∧ program.parent? root = none
  edged : ∀ node ∈ program.nodes, ∃ (i j : Nat) (first last : Token), i ≤ j ∧
    program.tokens[i]? = some first ∧ program.tokens[j]? = some last ∧
      first.span.start = node.mark.span.start ∧ last.span.stop = node.mark.span.stop
  around : ∀ node ∈ program.nodes, node.mark.outer.contains node.mark.span = true
  inside : ∀ node ∈ program.nodes, ∀ child ∈ node.children,
    node.mark.span.contains child.extent = true

end Program

/-! ## What the account says at the end -/

namespace Grammar.State.Accounts

variable {s : State} {held : List (Node Mark)} (accounts : s.Accounts held)
include accounts

/-- An expression in the tables stands at the place of its number. -/
theorem getElem?_expr {e : Expr Mark} (mem : .expr e ∈ s.nodes) : s.exprs[e.index]? = some e :=
  getElem?_of_placed accounts.exprs (by simpa [nodes] using mem)

/-- A statement in the tables stands at the place of its number. -/
theorem getElem?_stmt {x : Stmt Mark} (mem : .stmt x ∈ s.nodes) : s.stmts[x.index]? = some x :=
  getElem?_of_placed accounts.stmts (by simpa [nodes] using mem)

/-- No two nodes have the same name. -/
theorem nodup_nodes : (s.nodes.map Node.id).Nodup := by
  have exprs := (nodup_map_of_placed accounts.exprs).map (f := NodeId.expr)
    fun _ _ => NodeId.expr.inj
  have stmts := (nodup_map_of_placed accounts.stmts).map (f := NodeId.stmt)
    fun _ _ => NodeId.stmt.inj
  rw [List.map_map] at exprs stmts
  rw [nodes, List.map_append, List.map_map, List.map_map]
  refine exprs.append stmts fun id isExpr isStmt => ?_
  obtain ⟨_, _, rfl⟩ := List.mem_map.1 isExpr
  obtain ⟨_, _, other⟩ := List.mem_map.1 isStmt
  cases other

/-- The name tells the node. -/
theorem eq_of_id_eq {node other : Node Mark} (mem : node ∈ s.nodes) (memOther : other ∈ s.nodes)
    (same : node.id = other.id) : node = other :=
  List.inj_on_of_nodup_map accounts.nodup_nodes mem memOther same

/-- No two nodes in hand or below a node have the same name. -/
theorem nodup_owned : ((held ++ s.nodes.flatMap Node.children).map Node.id).Nodup := by
  obtain ⟨part, same, sub⟩ := accounts.owned
  exact (same.map Node.id).nodup_iff.1 (accounts.nodup_nodes.sublist (sub.map Node.id))

theorem nodup_children : ((s.nodes.flatMap Node.children).map Node.id).Nodup :=
  accounts.nodup_owned.sublist ((List.sublist_append_right ..).map Node.id)

theorem mem_of_child {node child : Node Mark} (mem : node ∈ s.nodes)
    (below : child ∈ node.children) : child ∈ s.nodes :=
  accounts.owned.subset (List.mem_append_right _ (List.mem_flatMap.2 ⟨node, mem, below⟩))

end Grammar.State.Accounts

namespace Program

variable {source : String} {row : TokenRow} {state : State} {body : List (Stmt Mark)}
  {held : List (Node Mark)}

/-- The statements directly in a statement of the program are statements of the program. -/
theorem mem_stmts_of_child {program : Program} (read : parse source = .ok program)
    {x child : Stmt Mark} (mem : x ∈ program.stmts) (below : .stmt child ∈ x.children) :
    child ∈ program.stmts := by
  obtain ⟨row, body, state, tokens, run, rfl⟩ := exists_run_of_parse read
  have stands := (Grammar.readProgram_reads row (stands_of_readTokens tokens) run).1
  have memNode : Node.stmt x ∈ state.nodes := by simpa [Grammar.State.nodes, ofState] using mem
  simpa [Grammar.State.nodes, ofState] using stands.accounts.mem_of_child memNode below

/-- Every node is found under its name. -/
theorem node?_ofState (accounts : state.Accounts held) {node : Node Mark}
    (mem : node ∈ state.nodes) : (ofState source row state body).node? node.id = some node := by
  cases node with
  | expr e => simp [node?, Node.id, ofState, accounts.getElem?_expr mem]
  | stmt x => simp [node?, Node.id, ofState, accounts.getElem?_stmt mem]

/-- The table of parents has a row for every node. -/
theorem has_blank (accounts : state.Accounts held) {node : Node Mark} (mem : node ∈ state.nodes) :
    (Parents.blank state.exprs.size state.stmts.size).Has node.id := by
  cases node with
  | expr e =>
    obtain ⟨inside, _⟩ := Array.getElem?_eq_some_iff.1 (accounts.getElem?_expr mem)
    simpa [Parents.Has, Parents.blank, Node.id] using inside
  | stmt x =>
    obtain ⟨inside, _⟩ := Array.getElem?_eq_some_iff.1 (accounts.getElem?_stmt mem)
    simpa [Parents.Has, Parents.blank, Node.id] using inside

/-- The table of parents gives the node that a child is below. -/
theorem parent?_ofState (accounts : state.Accounts held) (id : NodeId) (node : Node Mark) :
    (ofState source row state body).parent? id = some node ↔
      node ∈ state.nodes ∧ ∃ child ∈ node.children, child.id = id := by
  have table : (ofState source row state body).parents =
      (Parents.blank state.exprs.size state.stmts.size).enterAll
        (state.nodes.flatMap Parents.pairsOf) := by
    rw [State.nodes, List.flatMap_append, List.flatMap_map, List.flatMap_map]
    exact Parents.ofNodes_eq state.exprs state.stmts
  rw [parent?_eq, table]
  constructor
  · intro found
    rcases Parents.exists_mem_of_above?_enterAll found with blank | ⟨child, mem, name⟩
    · rw [Parents.above?_blank] at blank
      cases blank
    · obtain ⟨parent, memParent, pair⟩ := List.mem_flatMap.1 mem
      obtain ⟨_, below, same⟩ := List.mem_map.1 pair
      cases same
      exact ⟨memParent, child, below, name⟩
  · rintro ⟨mem, child, below, rfl⟩
    refine Parents.above?_enterAll ?_ ?_ (has_blank accounts (accounts.mem_of_child mem below))
    · have names : (state.nodes.flatMap Parents.pairsOf).map (fun pair => pair.2.id) =
          (state.nodes.flatMap Node.children).map Node.id := by
        simp [List.map_flatMap, Parents.pairsOf, Function.comp_def]
      rw [names]
      exact accounts.nodup_children
    · exact List.mem_flatMap.2 ⟨node, mem, List.mem_map.2 ⟨child, below, rfl⟩⟩

/-- **The way up ends.** -/
theorem exists_root (accounts : state.Accounts held) : ∀ node ∈ state.nodes, ∃ steps root,
    (ofState source row state body).climb steps node.id = some root ∧
      (ofState source row state body).parent? root = none := by
  have small : ∀ node ∈ state.nodes, sizeOf node < sizeOf state.nodes :=
    fun _ mem => List.sizeOf_lt_of_mem mem
  intro node mem
  -- every step up leads to a larger node, and no node is as large as the list of all
  induction room : sizeOf state.nodes - sizeOf node using Nat.strongRecOn generalizing node with
  | ind room ih =>
    cases found : (ofState source row state body).parent? node.id with
    | none => exact ⟨0, node.id, rfl, found⟩
    | some parent =>
      obtain ⟨memParent, child, below, name⟩ := (parent?_ofState accounts _ _).1 found
      obtain rfl := accounts.eq_of_id_eq (accounts.mem_of_child memParent below) mem name
      have larger := Node.sizeOf_lt below
      have least := small parent memParent
      obtain ⟨steps, root, climbed, last⟩ := ih _ (by omega) parent memParent rfl
      refine ⟨steps + 1, root, ?_, last⟩
      rw [climb, found]
      exact climbed

/-! ## Places -/

/-- All nodes of a program on its source are placed. -/
theorem Seated.placed {program : Program} (seated : program.Seated) :
    ∀ node ∈ program.nodes, node.Placed program.tokens.toList program.census := by
  intro node mem
  rcases List.mem_append.1 mem with isExpr | isStmt
  · obtain ⟨e, memE, rfl⟩ := List.mem_map.1 isExpr
    exact seated.exprs e (by simpa using memE)
  · obtain ⟨x, memX, rfl⟩ := List.mem_map.1 isStmt
    exact seated.stmts x (by simpa using memX)

/-- What stands on tokens runs from one token to a later one, or to the same. -/
theorem exists_tokens_of_edged {tokens : List Token} {span : Span}
    (ordered : tokens.Pairwise fun a b => a.span.stop ≤ b.span.start) (edged : span.Edged tokens) :
    ∃ (i j : Nat) (first last : Token), i ≤ j ∧ tokens[i]? = some first ∧ tokens[j]? = some last ∧
      first.span.start = span.start ∧ last.span.stop = span.stop := by
  obtain ⟨first, memFirst, start⟩ := edged.start
  obtain ⟨last, memLast, stop⟩ := edged.stop
  obtain ⟨i, inside, rfl⟩ := List.getElem_of_mem memFirst
  obtain ⟨j, inside', rfl⟩ := List.getElem_of_mem memLast
  refine ⟨i, j, tokens[i], tokens[j], ?_, by simp, by simp, start, stop⟩
  apply Classical.byContradiction
  intro before
  have := List.pairwise_iff_getElem.1 ordered j i inside' inside (by omega)
  have := edged.some
  omega

/-- The place of a node is not empty and lies inside its parentheses. -/
theorem extent_of_placed {tokens : List Token} {census : Census} {node : Node Mark}
    (placed : node.Placed tokens census) : node.extent.start < node.extent.stop ∧
      node.mark.outer.start ≤ node.extent.start ∧ node.extent.stop ≤ node.mark.outer.stop := by
  cases node with
  | expr e => exact ⟨placed.seated.outer.some, Nat.le_refl _, Nat.le_refl _⟩
  | stmt x => exact ⟨placed.seated.span.some, placed.seated.around⟩

/-- A child lies inside its parent with all that counts of it. -/
theorem contains_extent {tokens : List Token} {census : Census} {node child : Node Mark}
    (placed : node.Placed tokens census) (below : child ∈ node.children) :
    node.mark.span.contains child.extent = true := by
  obtain ⟨lower, upper⟩ := placed.seated.spread.inside child below
  obtain ⟨_, start, stop⟩ := extent_of_placed (placed.child child below)
  exact Span.contains_iff.2 ⟨Nat.le_trans lower start, Nat.le_trans stop upper⟩

/-! ## The forest -/

/-- A program with a right account that stands on its source is a forest. -/
theorem isForest_ofState (seated : (ofState source row state body).Seated)
    (accounts : state.Accounts (body.map .stmt)) : (ofState source row state body).IsForest where
  stored node mem := node?_ofState accounts mem
  linked node mem child below := node?_ofState accounts (accounts.mem_of_child mem below)
  top x mem := node?_ofState accounts (accounts.mem_nodes (.stmt x) (List.mem_map_of_mem mem))
  once := by
    rw [← List.map_flatMap]
    exact accounts.nodup_children
  parents := parent?_ofState accounts
  rooted := exists_root accounts
  edged node mem := by
    obtain ⟨i, j, first, last, le, isFirst, isLast, start, stop⟩ :=
      exists_tokens_of_edged seated.ordered (seated.placed node mem).seated.span
    exact ⟨i, j, first, last, le, by simpa using isFirst, by simpa using isLast, start, stop⟩
  around node mem := Span.contains_iff.2 (seated.placed node mem).seated.around
  inside node mem _ below := contains_extent (seated.placed node mem) below

/-- **The nodes of every source that can be read form a forest.** Each node is stored under its
name, and so are its children and the statements at the top. No node is listed twice as a child, the
table of parents names exactly the node that lists a child, and the way up from any node ends. Every
node runs from the start of a token to the end of a token that is no earlier; its parentheses lie
around it, and a child lies inside its parent with its parentheses. -/
theorem isForest_of_read {source : String} {program : Program}
    (read : parse source = .ok program ∨ ∃ e, parseExpression source = .ok (program, e)) :
    program.IsForest := by
  rcases read with read | ⟨e, read⟩
  · have seated := (seated_of_parse read).2
    obtain ⟨row, body, state, tokens, run, rfl⟩ := exists_run_of_parse read
    have stands := (Grammar.readProgram_reads row (stands_of_readTokens tokens) run).1
    exact isForest_ofState seated stands.accounts
  · have seated := (seated_of_parseExpression read).1
    obtain ⟨row, x, state, tokens, run, rfl⟩ := exists_run_of_parseExpression read
    have stands := (Grammar.readSingleExpression_reads row (stands_of_readTokens tokens) run).1
    exact isForest_ofState seated stands.accounts

/-- A class, an export and a tagged template leave nodes without a parent, parentheses are recorded
twice, and a method stands in front of its computed key. -/
theorem isForest_of_read_hidden :
    ∃ program,
      parse ("export default(a,b);class c\x7bd()\x7bfor((e);;)f\x60g\x60\x7d\x7d" ++
        "\x7bh(\x7b[i]()\x7b\x7d\x7d)\x7d") = .ok program ∧
      program.body.length = 3 ∧ program.nodes.length = 19 ∧
      program.nodes.countP (fun node => (program.parent? node.id).isNone) = 6 ∧
      program.IsForest := by
  have checked : (parse ("export default(a,b);class c\x7bd()\x7bfor((e);;)f\x60g\x60\x7d\x7d" ++
      "\x7bh(\x7b[i]()\x7b\x7d\x7d)\x7d")).toOption.any (fun program =>
        program.body.length = 3 ∧ program.nodes.length = 19 ∧
          program.nodes.countP (fun node => (program.parent? node.id).isNone) = 6) = true := by
    decide +kernel
  obtain ⟨program, read, checked⟩ := exists_ok_of_any checked
  obtain ⟨top, count, roots⟩ := of_decide_eq_true checked
  exact ⟨program, read, top, count, roots, isForest_of_read (.inl read)⟩

end Program

end TidyScript
