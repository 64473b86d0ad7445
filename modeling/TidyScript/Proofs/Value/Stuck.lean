import TidyScript.Proofs.Tree.Order
import TidyScript.Value.Evaluation

/-!
# Where evaluation gets stuck

Evaluation gets stuck at a node of the expression: at one whose mark the error gives, or at a name
without a value. So the text that the error quotes is always there, and with every name of the
expression bound, evaluation misses none.
-/

namespace TidyScript.Expr

/-- Evaluation can get stuck at the node itself in this way. -/
def Halts (bindings : Bindings) (node : Expr Mark) : Stuck Mark → Prop
  | .unsupported mark => node.mark = mark
  | .unbound name =>
    (∃ mark, node = .identifier mark name) ∧ (bindings name).or (wellKnown? name) = none

theorem halts_of_orStuck {bindings : Bindings} {node : Expr Mark} {result : Option Value}
    {stuck : Stuck Mark} (halts : orStuck node.mark result = .error stuck) :
    node.Halts bindings stuck := by
  cases result with
  | none => cases halts; rfl
  | some value => cases halts

theorem bind_eq_error {ε α β : Type} {x : Except ε α} {f : α → Except ε β} {error : ε}
    (stuck : x >>= f = .error error) : x = .error error ∨ ∃ a, x = .ok a ∧ f a = .error error := by
  cases x with
  | error other => exact .inl (by cases stuck; rfl)
  | ok a => exact .inr ⟨a, rfl, stuck⟩

mutual

/-- **Evaluation gets stuck at a node of the expression.** -/
theorem exists_halts {bindings : Bindings} {stuck : Stuck Mark} :
    (e : Expr Mark) → e.eval bindings = .error stuck →
      ∃ node ∈ e.descendants ++ [e], node.Halts bindings stuck
  | .unary mark op argument, halts => by
    rw [eval] at halts
    rcases bind_eq_error halts with inner | ⟨value, _, own⟩
    · obtain ⟨node, mem, here⟩ := exists_halts argument inner
      exact ⟨node, List.mem_append_left _ mem, here⟩
    · exact ⟨_, List.mem_append_right _ (.head _), halts_of_orStuck own⟩
  | .binary mark op left right, halts => by
    rw [eval] at halts
    rcases bind_eq_error halts with inner | ⟨a, _, halts⟩
    · obtain ⟨node, mem, here⟩ := exists_halts left inner
      exact ⟨node, by simp only [descendants]; grind, here⟩
    rcases bind_eq_error halts with inner | ⟨b, _, own⟩
    · obtain ⟨node, mem, here⟩ := exists_halts right inner
      exact ⟨node, by simp only [descendants]; grind, here⟩
    · exact ⟨_, List.mem_append_right _ (.head _), halts_of_orStuck own⟩
  | .logical mark op left right, halts => by
    rw [eval] at halts
    rcases bind_eq_error halts with inner | ⟨a, _, halts⟩
    · obtain ⟨node, mem, here⟩ := exists_halts left inner
      exact ⟨node, by simp only [descendants]; grind, here⟩
    split at halts
    · cases halts
    · obtain ⟨node, mem, here⟩ := exists_halts right halts
      exact ⟨node, by simp only [descendants]; grind, here⟩
  | .conditional mark test yes no, halts => by
    rw [eval] at halts
    rcases bind_eq_error halts with inner | ⟨a, _, halts⟩
    · obtain ⟨node, mem, here⟩ := exists_halts test inner
      exact ⟨node, by simp only [descendants]; grind, here⟩
    split at halts
    · obtain ⟨node, mem, here⟩ := exists_halts yes halts
      exact ⟨node, by simp only [descendants]; grind, here⟩
    · obtain ⟨node, mem, here⟩ := exists_halts no halts
      exact ⟨node, by simp only [descendants]; grind, here⟩
  | .sequence mark items, halts => by
    rw [eval] at halts
    obtain ⟨node, mem, here⟩ := exists_halts_of_evalLast items halts
    exact ⟨node, by simp only [descendants]; grind, here⟩
  | .identifier mark name, halts => by
    rw [eval, evalName] at halts
    split at halts
    · cases halts
    · next unbound =>
      cases halts
      exact ⟨_, .head _, ⟨mark, rfl⟩, unbound⟩
  | .literal mark value, halts =>
    ⟨_, .head _, halts_of_orStuck halts⟩
  | .thisRef _, halts | .hidden _, halts | .update _ _ _ _, halts | .member _ _ _ _, halts
  | .call _ _ _ _, halts | .construct _ _ _, halts | .assignment _ _ _ _, halts | .array _ _, halts
  | .object _ _, halts | .spread _ _, halts | .function _ _ _ _ _, halts =>
    ⟨_, List.mem_append_right _ (.head _), by cases halts; rfl⟩

/-- Evaluation of several expressions gets stuck at a node of one of them. -/
theorem exists_halts_of_evalLast {bindings : Bindings} {stuck : Stuck Mark} {last : Value} :
    (items : List (Expr Mark)) → evalLast bindings last items = .error stuck →
      ∃ node ∈ completed items, node.Halts bindings stuck
  | [], halts => by cases halts
  | item :: items, halts => by
    rw [evalLast] at halts
    rcases bind_eq_error halts with inner | ⟨a, _, halts⟩
    · obtain ⟨node, mem, here⟩ := exists_halts item inner
      exact ⟨node, by simp only [completed]; grind, here⟩
    · obtain ⟨node, mem, here⟩ := exists_halts_of_evalLast items halts
      exact ⟨node, by simp only [completed]; grind, here⟩

end

theorem exists_mark_eq {bindings : Bindings} {m : Mark} (e : Expr Mark)
    (stuck : e.eval bindings = .error (.unsupported m)) :
    ∃ node ∈ e.descendants ++ [e], node.mark = m :=
  exists_halts e stuck

end TidyScript.Expr
