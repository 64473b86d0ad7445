import TidyScript.Proofs.Text.Boundary
import TidyScript.Proofs.Tree.Order
import TidyScript.Token.Basic
import TidyScript.Tree.Mark

/-!
# Nodes in their places

A node is seated when it runs from the start of a token to the end of a token, with and without
its parentheses, when its number has been given out, and when the nodes directly below it lie
inside it. They also lie one behind the other, in the order of the source, with one exception: the
value of a property may start in front of a computed key. This is so where no colon stands between
the two: the function of a method starts where its property starts, and if the key is all there is,
its bracket is taken for a name. A block has its statements between its braces, where they leave out
no token, and the parts of a `try` are blocks.

A node is placed when it and all nodes below it are seated. Nodes that are placed between two
offsets can be put together: a row of them from one offset to a second and another from there to
a third make a row from the first to the third.
-/

namespace TidyScript

/-- How many expressions and how many statements have been completed. -/
structure Census where
  exprs : Nat
  stmts : Nat

/-- No sort of node is counted lower in the second count. -/
structure Census.Within (a b : Census) : Prop where
  exprs : a.exprs ≤ b.exprs
  stmts : a.stmts ≤ b.stmts

theorem Census.Within.refl (a : Census) : a.Within a :=
  ⟨Nat.le_refl _, Nat.le_refl _⟩

theorem Census.Within.trans {a b c : Census} (first : a.Within b) (second : b.Within c) :
    a.Within c :=
  ⟨Nat.le_trans first.exprs second.exprs, Nat.le_trans first.stmts second.stmts⟩

/-- The number of the node has been given out. -/
def NodeId.Counted (census : Census) : NodeId → Prop
  | .expr index => index < census.exprs
  | .stmt index => index < census.stmts

theorem NodeId.Counted.mono {a b : Census} (within : a.Within b) {id : NodeId}
    (counted : id.Counted a) : id.Counted b := by
  cases id with
  | expr index => exact Nat.lt_of_lt_of_le counted within.exprs
  | stmt index => exact Nat.lt_of_lt_of_le counted within.stmts

namespace Span

/-- The span runs from the start of a token to the end of a token. -/
structure Edged (tokens : List Token) (span : Span) : Prop where
  start : ∃ token ∈ tokens, token.span.start = span.start
  stop : ∃ token ∈ tokens, token.span.stop = span.stop
  some : span.start < span.stop

/-- The first and the last byte of the span are braces. -/
structure Braced (tokens : List Token) (span : Span) : Prop where
  start : ∃ token ∈ tokens, token.isPunct "\x7b" = true ∧ token.span.start = span.start ∧
    token.span.stop = span.start + 1
  stop : ∃ token ∈ tokens, token.isPunct "\x7d" = true ∧ token.span.stop = span.stop ∧
    token.span.start + 1 = span.stop
  apart : span.start + 1 < span.stop

end Span

/-! ## Shapes -/

/-- Is the statement a block? -/
def Stmt.isBlock {α : Type} : Stmt α → Bool
  | block _ _ => true
  | _ => false

/-- A value that starts where its property starts: the function of a method, or the bracket of a
computed key in the place of a name, which may have a default. -/
inductive Expr.StartsProperty : Expr Mark → Prop where
  | method {mark : Mark} {params : List (Expr Mark)} {body : List (Stmt Mark)} :
      StartsProperty (.function mark none params (.block body) false)
  | bracket {mark : Mark} : StartsProperty (.identifier mark "[")
  | bracketDefault {mark mark' : Mark} {value : Expr Mark} :
      StartsProperty (.assignment mark "=" (.identifier mark' "[") value)

/-- Between a computed key and its value stands a colon, or the value starts in front of the key. -/
def ObjectMember.Formed (tokens : List Token) : ObjectMember Mark → Prop
  | property (.computed key) value =>
    (∃ colon ∈ tokens, colon.isPunct ":" = true ∧ key.outer.stop ≤ colon.span.start ∧
      colon.span.stop ≤ value.outer.start) ∨
    value.outer.start < key.outer.start ∧ value.StartsProperty
  | _ => True

namespace Node

/-- Do the nodes below the node come in the order of the source? Those of an object literal may
not. -/
def keepsOrder : Node Mark → Bool
  | expr (.object _ _) => false
  | _ => true

/-! ## Spread nodes -/

/-- The nodes lie between two offsets, one behind the other if that is asked for. -/
structure Spread (ordered : Bool) (low : Nat) (nodes : List (Node Mark)) (high : Nat) : Prop where
  le : low ≤ high
  inside : ∀ node ∈ nodes, low ≤ node.mark.outer.start ∧ node.mark.outer.stop ≤ high
  inOrder : ordered = true → nodes.Pairwise fun a b => a.mark.outer.stop ≤ b.mark.outer.start

namespace Spread

variable {ordered : Bool} {low middle high : Nat} {nodes others : List (Node Mark)}

theorem nil (le : low ≤ high) : Spread ordered low [] high :=
  ⟨le, by simp, fun _ => .nil⟩

theorem append (first : Spread ordered low nodes middle)
    (second : Spread ordered middle others high) : Spread ordered low (nodes ++ others) high := by
  refine ⟨Nat.le_trans first.le second.le, ?_, fun asked => ?_⟩
  · intro node mem
    rcases List.mem_append.1 mem with mem | mem
    · have := first.inside node mem
      have := second.le
      omega
    · have := second.inside node mem
      have := first.le
      omega
  · refine List.pairwise_append.2 ⟨first.inOrder asked, second.inOrder asked, ?_⟩
    intro a memA b memB
    have := first.inside a memA
    have := second.inside b memB
    omega

theorem widen {low' high' : Nat} (spread : Spread ordered low nodes high) (lower : low' ≤ low)
    (upper : high ≤ high') : Spread ordered low' nodes high' := by
  refine ⟨by have := spread.le; omega, fun node mem => ?_, spread.inOrder⟩
  have := spread.inside node mem
  omega

/-- Order can be forgotten. -/
theorem relax {ordered' : Bool} (spread : Spread ordered low nodes high)
    (less : ordered' = true → ordered = true) : Spread ordered' low nodes high :=
  ⟨spread.le, spread.inside, fun asked => spread.inOrder (less asked)⟩

end Spread

/-- A block over the span: between two braces lie its statements, and no token there is left out. -/
structure Framed (tokens : List Token) (span : Span) (body : List (Stmt Mark)) : Prop where
  braced : span.Braced tokens
  spread : Spread true (span.start + 1) (body.map .stmt) (span.stop - 1)
  covered : ∀ token ∈ tokens, span.start + 1 ≤ token.span.start → token.span.stop ≤ span.stop - 1 →
    ∃ x ∈ body, x.span.contains token.span = true

/-! ## Seated and placed nodes -/

/-- What is asked of objects, blocks and `try`s alone. -/
def Shaped (tokens : List Token) : Node Mark → Prop
  | expr (.object _ members) => (∀ member ∈ members, member.Formed tokens) ∧
    members.Pairwise fun first second => ∀ a ∈ Expr.memberNodes first,
      ∀ b ∈ Expr.memberNodes second, a.mark.outer.stop ≤ b.mark.outer.start
  | stmt (.block mark body) => Framed tokens mark.span body
  | stmt (.attempt mark body handler finalizer) =>
    ∀ child, stmt child ∈ (Stmt.attempt mark body handler finalizer).children → child.isBlock = true
  | _ => True

/-- The node stands on tokens, has a number that has been given out, and has the nodes directly
below it inside. -/
structure Seated (tokens : List Token) (census : Census) (node : Node Mark) : Prop where
  span : node.mark.span.Edged tokens
  outer : node.mark.outer.Edged tokens
  around : node.mark.outer.start ≤ node.mark.span.start ∧
    node.mark.span.stop ≤ node.mark.outer.stop
  counted : node.id.Counted census
  spread : Spread node.keepsOrder node.mark.span.start node.children node.mark.span.stop
  shaped : node.Shaped tokens

/-- The node and all nodes below it are seated. -/
inductive Placed (tokens : List Token) (census : Census) : Node Mark → Prop where
  | intro {node : Node Mark} (seated : node.Seated tokens census)
      (below : ∀ child ∈ node.children, Placed tokens census child) : Placed tokens census node

variable {tokens : List Token} {census census' : Census} {node : Node Mark}

theorem Placed.seated (placed : node.Placed tokens census) : node.Seated tokens census := by
  cases placed with
  | intro seated _ => exact seated

theorem Placed.child (placed : node.Placed tokens census) :
    ∀ child ∈ node.children, child.Placed tokens census := by
  cases placed with
  | intro _ below => exact below

theorem Seated.mono (within : census.Within census') (seated : node.Seated tokens census) :
    node.Seated tokens census' :=
  { seated with counted := seated.counted.mono within }

theorem Placed.mono (within : census.Within census') (placed : node.Placed tokens census) :
    node.Placed tokens census' := by
  induction placed with
  | intro seated _ ih => exact .intro (seated.mono within) ih

/-! ## Rows of placed nodes -/

/-- The nodes are placed and lie between two offsets. -/
structure Laid (tokens : List Token) (census : Census) (ordered : Bool) (low : Nat)
    (nodes : List (Node Mark)) (high : Nat) : Prop where
  spread : Spread ordered low nodes high
  placed : ∀ node ∈ nodes, node.Placed tokens census

namespace Laid

variable {ordered : Bool} {low middle high : Nat} {nodes others : List (Node Mark)}

theorem nil (le : low ≤ high) : Laid tokens census ordered low [] high :=
  ⟨.nil le, by simp⟩

theorem append (first : Laid tokens census ordered low nodes middle)
    (second : Laid tokens census ordered middle others high) :
    Laid tokens census ordered low (nodes ++ others) high :=
  ⟨first.spread.append second.spread, fun node mem =>
    (List.mem_append.1 mem).elim (first.placed node) (second.placed node)⟩

theorem widen {low' high' : Nat} (laid : Laid tokens census ordered low nodes high)
    (lower : low' ≤ low) (upper : high ≤ high') :
    Laid tokens census ordered low' nodes high' :=
  ⟨laid.spread.widen lower upper, laid.placed⟩

theorem relax {ordered' : Bool} (laid : Laid tokens census ordered low nodes high)
    (less : ordered' = true → ordered = true) : Laid tokens census ordered' low nodes high :=
  ⟨laid.spread.relax less, laid.placed⟩

theorem mono (within : census.Within census') (laid : Laid tokens census ordered low nodes high) :
    Laid tokens census' ordered low nodes high :=
  ⟨laid.spread, fun node mem => (laid.placed node mem).mono within⟩

/-- A placed node between two offsets. -/
theorem single (placed : node.Placed tokens census) (lower : low ≤ node.mark.outer.start)
    (upper : node.mark.outer.stop ≤ high) : Laid tokens census ordered low [node] high := by
  have some := placed.seated.outer.some
  refine ⟨⟨by omega, ?_, fun _ => List.pairwise_singleton ..⟩, ?_⟩
  · intro other mem
    obtain rfl := List.mem_singleton.1 mem
    exact ⟨lower, upper⟩
  · intro other mem
    obtain rfl := List.mem_singleton.1 mem
    exact placed

/-- Nodes can be left out. -/
theorem sub (laid : Laid tokens census ordered low nodes high) (sub : others.Sublist nodes) :
    Laid tokens census ordered low others high :=
  ⟨⟨laid.spread.le, fun node mem => laid.spread.inside node (sub.subset mem),
    fun asked => (laid.spread.inOrder asked).sublist sub⟩,
    fun node mem => laid.placed node (sub.subset mem)⟩

/-- Nodes in order lie behind the start of the first. -/
theorem narrow (laid : Laid tokens census true low (node :: nodes) high) :
    Laid tokens census true node.mark.outer.start (node :: nodes) high := by
  have some := (laid.placed node (by simp)).seated.outer.some
  have inside := laid.spread.inside
  refine ⟨⟨?_, fun other mem => ⟨?_, (inside other mem).2⟩, laid.spread.inOrder⟩, laid.placed⟩
  · have := (inside node (by simp)).2
    omega
  · rcases List.mem_cons.1 mem with rfl | behind
    · exact Nat.le_refl _
    · have := (List.pairwise_cons.1 (laid.spread.inOrder rfl)).1 other behind
      omega

/-- Nodes that end at ends of tokens end before `high` if no token behind it has been used. -/
theorem lower_high {high' : Nat} (laid : Laid tokens census ordered low nodes high)
    (le : low ≤ high')
    (used : ∀ token ∈ tokens, token.span.stop ≤ high → token.span.stop ≤ high') :
    Laid tokens census ordered low nodes high' := by
  refine ⟨⟨le, fun node mem => ⟨(laid.spread.inside node mem).1, ?_⟩, laid.spread.inOrder⟩,
    laid.placed⟩
  obtain ⟨token, memToken, stops⟩ := (laid.placed node mem).seated.outer.stop
  rw [← stops]
  exact used token memToken (stops ▸ (laid.spread.inside node mem).2)

/-- Nodes between the same two offsets, in no order. -/
theorem union (first : Laid tokens census true low nodes high)
    (second : Laid tokens census true low others high) :
    Laid tokens census false low (nodes ++ others) high := by
  refine ⟨⟨first.spread.le, fun node mem => ?_, by simp⟩, fun node mem => ?_⟩
  · exact (List.mem_append.1 mem).elim (first.spread.inside node) (second.spread.inside node)
  · exact (List.mem_append.1 mem).elim (first.placed node) (second.placed node)

end Laid

/-- **A node over a row of placed nodes is placed.** -/
theorem Placed.over {ordered : Bool} (same : node.mark.outer = node.mark.span)
    (edged : node.mark.span.Edged tokens) (counted : node.id.Counted census)
    (laid : Laid tokens census ordered node.mark.span.start node.children node.mark.span.stop)
    (order : node.keepsOrder = true → ordered = true) (shaped : node.Shaped tokens) :
    node.Placed tokens census := by
  refine .intro ⟨edged, same ▸ edged, ?_, counted, laid.spread.relax order, shaped⟩ laid.placed
  rw [same]
  exact ⟨Nat.le_refl _, Nat.le_refl _⟩

/-- **Parentheses around a placed expression leave it placed.** -/
theorem Placed.enclose {e : Expr Mark} (placed : (expr e).Placed tokens census) {outer : Span}
    (edged : outer.Edged tokens) (lower : outer.start ≤ e.mark.outer.start)
    (upper : e.mark.outer.stop ≤ outer.stop) :
    (expr (e.withMark { e.mark with outer := outer })).Placed tokens census := by
  have seated := placed.seated
  have around := seated.around
  have children : (expr (e.withMark { e.mark with outer := outer })).children =
      (expr e).children :=
    Expr.children_withMark _ e
  have mark : (expr (e.withMark { e.mark with outer := outer })).mark =
      { e.mark with outer := outer } :=
    Expr.mark_withMark _ e
  have order : (expr (e.withMark { e.mark with outer := outer })).keepsOrder =
      (expr e).keepsOrder := by
    cases e <;> rfl
  have shaped : (expr (e.withMark { e.mark with outer := outer })).Shaped tokens =
      (expr e).Shaped tokens := by
    cases e <;> rfl
  refine .intro ⟨?_, ?_, ?_, ?_, ?_, shaped ▸ seated.shaped⟩ (children ▸ placed.child)
  · rw [mark]
    exact seated.span
  · rwa [mark]
  · rw [mark]
    exact ⟨Nat.le_trans lower around.1, Nat.le_trans around.2 upper⟩
  · have counted := seated.counted
    simp only [id, NodeId.Counted, Expr.index, Expr.mark_withMark] at counted ⊢
    exact counted
  · rw [mark, children, order]
    exact seated.spread

/-! ## Below a plain expression -/

/-- The nodes below a plain expression are placed with it. -/
theorem Placed.descendant (e : Expr Mark) (placed : (expr e).Placed tokens census) :
    ∀ d ∈ e.descendants ++ [e], (expr d).Placed tokens census :=
  Expr.forall_descendants (fun placed below => placed.child _ below) e placed

end Node

end TidyScript
