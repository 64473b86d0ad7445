import TidyScript.Proofs.Phrase.Place
import TidyScript.Proofs.Program.Parents

/-!
# Parents in a sentence

The nodes of a phrase are numbered in the order of their completion, and every node but the last
is the child of exactly one other. So the table of parents is right about every node of a
sentence.
-/

namespace TidyScript

open Grammar

theorem Grammar.Infix.children_build {op : Infix} {left right : Expr Mark} {mark : Mark} :
    (op.build left right mark).children = [.expr left, .expr right] := by
  cases op <;> rfl

namespace Phrase

section Nodes

theorem perm_two {α : Type} {as bs : List α} (a b : α) :
    ((as ++ bs) ++ [a, b]).Perm (as ++ a :: (bs ++ [b])) := by
  rw [List.append_assoc]
  exact List.perm_middle.append_left as

theorem perm_three {α : Type} {as bs cs : List α} (a b c : α) :
    ((as ++ (bs ++ cs)) ++ [a, b, c]).Perm (as ++ a :: (bs ++ b :: (cs ++ [c]))) := by
  rw [List.append_assoc]
  refine List.Perm.append_left as (List.perm_middle.trans (.cons a ?_))
  exact perm_two b c

variable (count offset : Nat)

/-- The nodes of a phrase have consecutive numbers. -/
theorem map_index_descendants (φ : Phrase) :
    (φ.node count offset).descendants.map Expr.index = List.range' count φ.inside := by
  have all : ∀ {ψ : Phrase} {count offset : Nat},
      (ψ.node count offset).descendants.map Expr.index = List.range' count ψ.inside →
        (ψ.nodes count offset).map Expr.index = List.range' count (ψ.inside + 1) := by
    intro ψ count offset below
    rw [nodes, List.map_append, below, List.range'_concat, List.map_singleton, index_node]
    simp
  induction φ generalizing count offset with
  | atom word => rw [node_atom, Piece.descendants_leaf]; rfl
  | group left inner right ih => rw [node_group, Expr.descendants_withMark, ih]; rfl
  | signed sign op operand ih =>
    rw [node_signed, Expr.descendants]
    exact all (ih count (offset + sign.bytes))
  | linked op left sign right ihLeft ihRight =>
    have first := all (ihLeft count offset)
    have second := all (ihRight (count + (left.inside + 1)) (offset + left.bytes + sign.bytes))
    rw [node_linked, Infix.descendants_build, inside, ← List.range'_append_1, ← first, ← second]
    simp [nodes]
  | choice test mark yes colon no ihTest ihYes ihNo =>
    have first := all (ihTest count offset)
    have second := all (ihYes (count + (test.inside + 1)) (offset + test.bytes + mark.bytes))
    have third := all (ihNo (count + (test.inside + 1) + (yes.inside + 1))
      (offset + test.bytes + mark.bytes + yes.bytes + colon.bytes))
    rw [node_choice, Expr.descendants, inside, Nat.add_assoc (test.inside + 1),
      ← List.range'_append_1, ← first, ← List.range'_append_1, ← second, ← third]
    simp [nodes]
  | comma first sign rest ihFirst ihRest =>
    have front := all (ihFirst count offset)
    have back := ihRest (count + (first.inside + 1)) (offset + first.bytes + sign.bytes)
    have tail : (Expr.completed (rest.items (count + (first.inside + 1))
        (offset + first.bytes + sign.bytes))).map Expr.index =
          List.range' (count + (first.inside + 1))
            (if rest.isRow then rest.inside else rest.inside + 1) := by
      cases row : rest.isRow with
      | true => rw [completed_items_of_isRow _ _ row, back]; simp
      | false => rw [completed_items_of_not_isRow _ _ row, all back]; simp
    rw [node_comma, Expr.descendants, items_comma, Expr.completed, inside, ← List.range'_append_1,
      ← front, ← tail]
    simp [nodes]

theorem map_index_nodes (φ : Phrase) :
    (φ.nodes count offset).map Expr.index = List.range' count (φ.inside + 1) := by
  rw [nodes, List.map_append, map_index_descendants, List.range'_concat, List.map_singleton,
    index_node]
  simp

theorem children_of_isRow {φ : Phrase} (row : φ.isRow = true) :
    (φ.node count offset).children = (φ.items count offset).map .expr := by
  cases φ with
  | comma first sign rest => rw [node_comma]; rfl
  | _ => cases row

/-- The children of the nodes of a phrase are its nodes without the last, each of them once. -/
theorem perm_children (φ : Phrase) :
    ((φ.nodes count offset).flatMap Expr.children).Perm
      ((φ.node count offset).descendants.map .expr) := by
  induction φ generalizing count offset with
  | atom word =>
    rw [nodes, node_atom, Piece.descendants_leaf]
    rcases word.leaf_cases ((atom word).mark count offset) with
      ⟨_, leaf⟩ | ⟨_, leaf⟩ | leaf | leaf <;> rw [leaf] <;> exact .refl _
  | group left inner right ih =>
    rw [nodes, node_group, Expr.descendants_withMark, List.flatMap_append, List.flatMap_singleton,
      Expr.children_withMark, ← List.flatMap_singleton Expr.children, ← List.flatMap_append]
    exact ih count (offset + left.bytes)
  | signed sign op operand ih =>
    rw [nodes, node_signed, Expr.descendants, List.flatMap_append, List.map_append]
    exact (ih count (offset + sign.bytes)).append_right _
  | linked op left sign right ihLeft ihRight =>
    have parts := (ihLeft count offset).append
      (ihRight (count + (left.inside + 1)) (offset + left.bytes + sign.bytes))
    have children := @Infix.children_build op (left.node count offset)
      (right.node (count + (left.inside + 1)) (offset + left.bytes + sign.bytes))
      ((linked op left sign right).mark count offset)
    have whole := (parts.append_right _).trans (perm_two (.expr (left.node count offset))
      (.expr (right.node (count + (left.inside + 1)) (offset + left.bytes + sign.bytes))))
    rw [nodes, node_linked, Infix.descendants_build, List.flatMap_append, List.flatMap_singleton,
      children]
    simpa [nodes] using whole
  | choice test mark yes colon no ihTest ihYes ihNo =>
    have parts := (ihTest count offset).append
      ((ihYes (count + (test.inside + 1)) (offset + test.bytes + mark.bytes)).append
        (ihNo (count + (test.inside + 1) + (yes.inside + 1))
          (offset + test.bytes + mark.bytes + yes.bytes + colon.bytes)))
    rw [nodes, node_choice, Expr.descendants, List.flatMap_append, List.flatMap_singleton,
      Expr.children]
    have whole := (parts.append_right _).trans (perm_three (.expr (test.node count offset))
      (.expr (yes.node (count + (test.inside + 1)) (offset + test.bytes + mark.bytes)))
      (.expr (no.node (count + (test.inside + 1) + (yes.inside + 1))
          (offset + test.bytes + mark.bytes + yes.bytes + colon.bytes))))
    simpa [nodes] using whole
  | comma first sign rest ihFirst ihRest =>
    have front := ihFirst count offset
    have back := ihRest (count + (first.inside + 1)) (offset + first.bytes + sign.bytes)
    rw [nodes, node_comma, Expr.descendants, List.flatMap_append, List.flatMap_singleton,
      Expr.children, items_comma, Expr.completed]
    cases row : rest.isRow with
    | true =>
      rw [completed_items_of_isRow _ _ row]
      rw [nodes, List.flatMap_append, List.flatMap_singleton, children_of_isRow _ _ row] at back
      have whole := (front.append_right _).trans
        ((List.perm_middle.trans (back.cons (.expr (first.node count offset)))).append_left _)
      simpa [nodes] using whole
    | false =>
      rw [completed_items_of_not_isRow _ _ row, items_of_not_isRow _ _ row]
      have whole := ((front.append back).append_right _).trans
        (perm_two (.expr (first.node count offset))
          (.expr (rest.node (count + (first.inside + 1)) (offset + first.bytes + sign.bytes))))
      simpa [nodes] using whole

end Nodes

end Phrase

namespace Sentence

variable {s : Sentence} {program : Program}

theorem nodup_ids (s : Sentence) :
    ((s.phrase.nodes 0 0).map fun e => NodeId.expr e.index).Nodup := by
  have numbers : ((s.phrase.nodes 0 0).map Expr.index).Nodup := by
    rw [Phrase.map_index_nodes]
    exact List.nodup_range'
  have named := numbers.map (f := NodeId.expr) fun _ _ same => NodeId.expr.inj same
  rwa [List.map_map] at named

theorem index_lt_of_mem {e : Expr Mark} (mem : e ∈ s.phrase.nodes 0 0) :
    e.index < (s.phrase.nodes 0 0).length := by
  have number := List.mem_map_of_mem (f := Expr.index) mem
  rw [Phrase.map_index_nodes, List.mem_range'_1] at number
  rw [Phrase.length_nodes]
  omega

/-- No node of a sentence is the child of two. -/
theorem nodup_children (s : Sentence) (mark : Mark) :
    (((s.phrase.nodes 0 0).flatMap fun e => Parents.pairsOf (.expr e)) ++
      Parents.pairsOf (.stmt (.expression mark s.node))).map (fun pair => pair.2.id) |>.Nodup := by
  have ids : (((s.phrase.nodes 0 0).flatMap fun e => Parents.pairsOf (.expr e)) ++
      Parents.pairsOf (.stmt (.expression mark s.node))).map (fun pair => pair.2.id) =
        ((s.phrase.nodes 0 0).flatMap Expr.children).map Node.id ++ [.expr s.node.index] := by
    simp only [Parents.pairsOf, List.map_append, List.map_flatMap, List.map_map, Function.comp_def,
      Node.children, Stmt.children]
    rfl
  have perm := ((Phrase.perm_children 0 0 s.phrase).map Node.id).append_right
    [NodeId.expr s.node.index]
  rw [ids, perm.nodup_iff]
  have whole := s.nodup_ids
  simpa [Phrase.nodes, Function.comp_def, Node.id, Sentence.node] using whole

/-- **The program knows the parent of every node of the sentence.** -/
theorem IsRead.parent?_eq (isRead : s.IsRead program) {e child : Expr Mark}
    (mem : e ∈ s.phrase.nodes 0 0) (isChild : Node.expr child ∈ e.children) :
    program.parent? (.expr child.index) = some (.expr e) := by
  obtain ⟨mark, _, stmts⟩ := isRead.body
  rw [Program.parent?_eq, isRead.parents, Parents.ofNodes_eq, isRead.exprs, stmts]
  have below : child ∈ s.phrase.nodes 0 0 := by
    have found := (Phrase.perm_children 0 0 s.phrase).mem_iff.1 (List.mem_flatMap.2 ⟨e, mem, isChild⟩)
    obtain ⟨_, inside, same⟩ := List.mem_map.1 found
    cases same
    exact List.mem_append_left _ inside
  refine @Parents.above?_enterAll _ _ ?_ (.expr e) (.expr child) ?_ ?_
  · simpa using s.nodup_children mark
  · refine List.mem_append_left _ (List.mem_flatMap.2 ⟨e, mem, ?_⟩)
    exact List.mem_map.2 ⟨.expr child, isChild, rfl⟩
  · simpa [Parents.Has, Parents.blank, Node.id] using index_lt_of_mem below

end Sentence

end TidyScript
