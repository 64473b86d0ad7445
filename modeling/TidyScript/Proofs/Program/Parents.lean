import Mathlib.Data.List.Nodup
import TidyScript.Program.Basic

/-!
# Looking up parents

The table of parents is filled by entering, for one node after the other, the node as the parent
of its children. Whoever the table gives as a parent is one of these nodes, and when no child is
entered twice, the table gives back for each child the node it was entered with.
-/

namespace TidyScript

namespace Parents

/-- The parent of the node with the given name. -/
def above? (parents : Parents) : NodeId → Option (Node Mark)
  | .expr index => parents.ofExpr[index]?.join
  | .stmt index => parents.ofStmt[index]?.join

/-- Is there a row of the table for the name? -/
def Has (parents : Parents) : NodeId → Prop
  | .expr index => index < parents.ofExpr.size
  | .stmt index => index < parents.ofStmt.size

/-- Enters the second node of each pair as a child of the first. -/
def enterAll (parents : Parents) (pairs : List (Node Mark × Node Mark)) : Parents :=
  pairs.foldl (fun parents pair => enter pair.1 parents pair.2) parents

/-- A node paired with each of its children. -/
def pairsOf (parent : Node Mark) : List (Node Mark × Node Mark) :=
  parent.children.map fun child => (parent, child)

theorem enterChildren_eq (parents : Parents) (parent : Node Mark) :
    parents.enterChildren parent = parents.enterAll (pairsOf parent) := by
  rw [enterChildren, enterAll, pairsOf, List.foldl_map]

theorem foldl_enterChildren {α : Type} (toNode : α → Node Mark) (parents : Parents) (nodes : List α) :
    nodes.foldl (fun parents node => parents.enterChildren (toNode node)) parents =
      parents.enterAll (nodes.flatMap fun node => pairsOf (toNode node)) := by
  induction nodes generalizing parents with
  | nil => rfl
  | cons node nodes ih =>
    rw [List.foldl_cons, ih, enterChildren_eq, List.flatMap_cons, enterAll, enterAll, enterAll,
      List.foldl_append]

/-- The table is filled with all pairs of a node and its child. -/
theorem ofNodes_eq (exprs : Array (Expr Mark)) (stmts : Array (Stmt Mark)) :
    ofNodes exprs stmts =
      (blank exprs.size stmts.size).enterAll
        ((exprs.toList.flatMap fun e => pairsOf (.expr e)) ++
          stmts.toList.flatMap fun s => pairsOf (.stmt s)) := by
  rw [ofNodes, ← Array.foldl_toList, ← Array.foldl_toList, foldl_enterChildren, foldl_enterChildren,
    enterAll, enterAll, enterAll, List.foldl_append]

/-- Only a name with a row has a parent. -/
theorem has_of_above? {parents : Parents} {id : NodeId} {parent : Node Mark}
    (found : parents.above? id = some parent) : parents.Has id := by
  apply Classical.byContradiction
  intro missing
  cases id with
  | expr index => simp [above?, Array.getElem?_eq_none (Nat.le_of_not_lt missing)] at found
  | stmt index => simp [above?, Array.getElem?_eq_none (Nat.le_of_not_lt missing)] at found

theorem above?_blank (exprs stmts : Nat) (id : NodeId) : (blank exprs stmts).above? id = none := by
  cases id with
  | expr index => by_cases h : index < exprs <;> simp [above?, blank, h]
  | stmt index => by_cases h : index < stmts <;> simp [above?, blank, h]

section Entering

variable {parents : Parents} {parent child : Node Mark} {id : NodeId}

theorem above?_enter_self (has : parents.Has child.id) :
    (enter parent parents child).above? child.id = some parent := by
  cases child with
  | expr e =>
    have inside : e.index < parents.ofExpr.size := has
    simp [enter, above?, Node.id, inside]
  | stmt s =>
    have inside : s.index < parents.ofStmt.size := has
    simp [enter, above?, Node.id, inside]

theorem above?_enter_of_ne (other : child.id ≠ id) :
    (enter parent parents child).above? id = parents.above? id := by
  cases child with
  | expr e =>
    cases id with
    | expr index =>
      have ne : e.index ≠ index := fun same => other (by rw [Node.id, same])
      simp [enter, above?, Array.getElem?_setIfInBounds_ne ne]
    | stmt index => rfl
  | stmt s =>
    cases id with
    | expr index => rfl
    | stmt index =>
      have ne : s.index ≠ index := fun same => other (by rw [Node.id, same])
      simp [enter, above?, Array.getElem?_setIfInBounds_ne ne]

theorem has_enter : (enter parent parents child).Has id ↔ parents.Has id := by
  cases child <;> cases id <;> simp [enter, Has]

end Entering

theorem above?_enterAll_of_not_mem {parents : Parents} {pairs : List (Node Mark × Node Mark)}
    {id : NodeId} (absent : id ∉ pairs.map fun pair => pair.2.id) :
    (parents.enterAll pairs).above? id = parents.above? id := by
  induction pairs generalizing parents with
  | nil => rfl
  | cons pair pairs ih =>
    rw [List.map_cons, List.mem_cons, not_or] at absent
    rw [enterAll, List.foldl_cons, ← enterAll, ih absent.2, above?_enter_of_ne (Ne.symm absent.1)]

/-- Who is found as a parent has been entered as one. -/
theorem exists_mem_of_above?_enterAll {parents : Parents} {pairs : List (Node Mark × Node Mark)}
    {id : NodeId} {parent : Node Mark} (found : (parents.enterAll pairs).above? id = some parent) :
    parents.above? id = some parent ∨ ∃ child, (parent, child) ∈ pairs ∧ child.id = id := by
  induction pairs generalizing parents with
  | nil => exact .inl found
  | cons pair pairs ih =>
    rw [enterAll, List.foldl_cons, ← enterAll] at found
    rcases ih found with here | ⟨child, mem, name⟩
    · by_cases same : pair.2.id = id
      · have has : parents.Has pair.2.id := has_enter.1 (same ▸ has_of_above? here)
        rw [← same, above?_enter_self has] at here
        cases here
        exact .inr ⟨pair.2, List.mem_cons_self .., same⟩
      · rw [above?_enter_of_ne same] at here
        exact .inl here
    · exact .inr ⟨child, List.mem_cons_of_mem _ mem, name⟩

/-- **When no child is entered twice, each one finds its parent.** -/
theorem above?_enterAll {parents : Parents} {pairs : List (Node Mark × Node Mark)}
    (once : (pairs.map fun pair => pair.2.id).Nodup) {parent child : Node Mark}
    (mem : (parent, child) ∈ pairs) (has : parents.Has child.id) :
    (parents.enterAll pairs).above? child.id = some parent := by
  induction pairs generalizing parents with
  | nil => cases mem
  | cons pair pairs ih =>
    rw [List.map_cons, List.nodup_cons] at once
    rw [enterAll, List.foldl_cons, ← enterAll]
    rcases List.mem_cons.1 mem with rfl | mem
    · rw [above?_enterAll_of_not_mem once.1]
      exact above?_enter_self has
    · exact ih once.2 mem (has_enter.2 has)

end Parents

theorem Program.parent?_eq (program : Program) (id : NodeId) :
    program.parent? id = program.parents.above? id := by
  cases id <;> rfl

end TidyScript
