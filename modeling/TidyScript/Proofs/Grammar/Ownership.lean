import Mathlib.Data.List.Perm.Subperm
import TidyScript.Proofs.Grammar.Along
import TidyScript.Proofs.Tree.Order

/-!
# Whose node a node is

Every node that a parse completes is in a table, at the place of its number. On the way from its
completion to its parent, a node is in the hand of the production that has read it. The account of
a state says that all nodes in hand and all children of nodes in the tables are different entries of
the tables: nobody's child is also somebody else's, and nobody in hand is anybody's child.

Each step of a production keeps the account. Completing a node takes its children out of the hand
and puts the node there, recording parentheses exchanges an entry of the table and its copy in the
hand, and what is read for a hidden construct is put down and stays without a parent.
-/

namespace TidyScript.Grammar

variable {α β : Type} {s s' : State} {held kept front : List (Node Mark)}

/-! ## Tables -/

section Tables

-- every entry of the table stands at the place of its number
variable {table : Array α} {number : α → Nat}
  (placed : ∀ (i : Nat) (a : α), table[i]? = some a → number a = i)

include placed

theorem placed_push {b : α} (next : number b = table.size) (i : Nat) (a : α)
    (found : (table.push b)[i]? = some a) : number a = i := by
  rw [Array.getElem?_push] at found
  split at found
  · next last =>
    cases found
    exact next.trans last.symm
  · exact placed i a found

theorem placed_set {b : α} (i : Nat) (a : α)
    (found : (table.setIfInBounds (number b) b)[i]? = some a) : number a = i := by
  rw [Array.getElem?_setIfInBounds] at found
  split at found
  · next same =>
    split at found
    · cases found
      exact same
    · cases found
  · exact placed i a found

theorem getElem?_of_placed {a : α} (mem : a ∈ table.toList) : table[number a]? = some a := by
  obtain ⟨i, found⟩ := List.mem_iff_getElem?.1 mem
  rw [Array.getElem?_toList] at found
  rwa [placed i a found]

/-- No number is used twice. -/
theorem nodup_map_of_placed : (table.toList.map number).Nodup := by
  have range : table.toList.map number = List.range table.size := by
    refine List.ext_getElem (by simp) fun i _ _ => ?_
    simp [placed i]
  rw [range]
  exact List.nodup_range

end Tables

/-! ## Accounts -/

namespace State

/-- All nodes completed so far. -/
def nodes (s : State) : List (Node Mark) :=
  s.exprs.toList.map .expr ++ s.stmts.toList.map .stmt

/-- Every node stands at the place of its number, and the nodes in hand and the children of all
nodes are different nodes in the tables. -/
structure Accounts (s : State) (held : List (Node Mark)) : Prop where
  exprs : ∀ (index : Nat) (e : Expr Mark), s.exprs[index]? = some e → e.index = index
  stmts : ∀ (index : Nat) (x : Stmt Mark), s.stmts[index]? = some x → x.index = index
  owned : (held ++ s.nodes.flatMap Node.children).Subperm s.nodes

theorem accounts_ofRow (row : TokenRow) : (ofRow row).Accounts [] :=
  ⟨by simp [ofRow], by simp [ofRow], List.nil_subperm⟩

namespace Accounts

/-- Nodes can be put down. -/
theorem less (accounts : s.Accounts held) (fewer : kept.Subperm held) : s.Accounts kept :=
  ⟨accounts.exprs, accounts.stmts,
    ((List.subperm_append_right _).2 fewer).trans accounts.owned⟩

/-- Only the tables count. -/
theorem of_tables (accounts : s.Accounts held) (exprs : s'.exprs = s.exprs)
    (stmts : s'.stmts = s.stmts) : s'.Accounts held := by
  obtain ⟨_, _, _, _, _, _⟩ := s
  obtain ⟨_, _, _, _, _, _⟩ := s'
  cases exprs
  cases stmts
  exact ⟨accounts.exprs, accounts.stmts, accounts.owned⟩

/-- What is owned when one node in hand is set apart. -/
theorem perm_owned {all others : List (Node Mark)} {one : Node Mark}
    (parts : all.Perm (one :: others)) : ((kept ++ [one]) ++ all.flatMap Node.children).Perm
      (one :: ((kept ++ one.children) ++ others.flatMap Node.children)) := by
  have below := parts.flatMap_right Node.children
  rw [List.flatMap_cons] at below
  rw [List.append_assoc, List.append_assoc]
  exact List.perm_middle.trans ((below.append_left kept).cons one)

/-- A new node takes the place of its children in the hand. -/
theorem owned_add {nodes nodes' : List (Node Mark)} {node : Node Mark}
    (owned : ((kept ++ node.children) ++ nodes.flatMap Node.children).Subperm nodes)
    (more : nodes'.Perm (node :: nodes)) :
    ((kept ++ [node]) ++ nodes'.flatMap Node.children).Subperm nodes' :=
  (perm_owned more).subperm.trans (((List.subperm_cons node).2 owned).trans more.symm.subperm)

/-- A node in hand can be exchanged for one with the same children. -/
theorem owned_exchange {nodes nodes' others : List (Node Mark)} {node node' : Node Mark}
    (owned : ((kept ++ [node]) ++ nodes.flatMap Node.children).Subperm nodes)
    (before : nodes.Perm (node :: others)) (after : nodes'.Perm (node' :: others))
    (children : node'.children = node.children) :
    ((kept ++ [node']) ++ nodes'.flatMap Node.children).Subperm nodes' := by
  have rest : ((kept ++ node.children) ++ others.flatMap Node.children).Subperm others :=
    (List.subperm_cons node).1
      (((perm_owned before).symm.subperm.trans owned).trans before.subperm)
  rw [← children] at rest
  exact owned_add rest after

/-- An expression is completed over the nodes in hand. -/
theorem grow {e : Expr Mark} (accounts : s.Accounts (kept ++ e.children))
    (index : e.index = s.exprs.size) : (s.grow e).Accounts (kept ++ [.expr e]) := by
  refine ⟨placed_push accounts.exprs index, accounts.stmts, owned_add accounts.owned ?_⟩
  rw [nodes, State.grow, Array.toList_push, List.map_append, List.append_assoc]
  exact List.perm_middle

/-- A statement is completed over the nodes in hand. -/
theorem growStmt {x : Stmt Mark} (accounts : s.Accounts (kept ++ x.children))
    (index : x.index = s.stmts.size) : (s.growStmt x).Accounts (kept ++ [.stmt x]) := by
  refine ⟨accounts.exprs, placed_push accounts.stmts index, owned_add accounts.owned ?_⟩
  have last : (s.growStmt x).nodes = s.nodes ++ [.stmt x] := by simp [nodes, State.growStmt]
  rw [last]
  exact List.perm_append_singleton ..

/-- Every node of an account is in the tables. -/
theorem mem_nodes (accounts : s.Accounts held) : ∀ node ∈ held, node ∈ s.nodes :=
  fun _ mem => accounts.owned.subset (List.mem_append_left _ mem)

/-- Parentheses are recorded around an expression in hand. -/
theorem enclosing {e e' : Expr Mark} (accounts : s.Accounts (kept ++ [.expr e]))
    (index : e'.index = e.index) (children : e'.children = e.children) :
    (s.enclosing e').Accounts (kept ++ [.expr e']) := by
  have mem : e ∈ s.exprs.toList := by
    simpa [nodes] using accounts.mem_nodes (.expr e) (by simp)
  obtain ⟨front, back, parts⟩ := List.append_of_mem mem
  have place : e.index = front.length := by
    refine accounts.exprs front.length e ?_
    rw [← Array.getElem?_toList, parts]
    simp
  have exchanged : (s.enclosing e').exprs.toList = front ++ e' :: back := by
    simp [State.enclosing, Array.toList_setIfInBounds, parts, index, place]
  let others := front.map Node.expr ++ (back.map .expr ++ s.stmts.toList.map .stmt)
  have before : s.nodes.Perm (.expr e :: others) := by
    rw [nodes, parts, List.map_append, List.append_assoc]
    exact List.perm_middle
  have after : (s.enclosing e').nodes.Perm (.expr e' :: others) := by
    rw [nodes, exchanged, List.map_append, List.append_assoc]
    exact List.perm_middle
  exact ⟨placed_set accounts.exprs, accounts.stmts,
    owned_exchange accounts.owned before after children⟩

end Accounts

end State

/-! ## Parses that touch no table -/

/-- The parse takes tokens at most, and leaves the tables as they are. -/
abbrev Still (x : Parse α) : Prop :=
  Along State.Advances x

instance : Track State.Advances where
  refl _ := .refl
  trans := .trans
  next _ := .next .refl

end TidyScript.Grammar
