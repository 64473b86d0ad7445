import Mathlib.Data.List.Forall2
import TidyScript.Token.Basic

/-!
# Rows of tokens that read the same

Two rows read the same when they have the same length and their tokens mean the same, one by one.
Tokens that mean the same agree in all that is asked of a token by its category and its text.
-/

namespace TidyScript.Token

theorem sameRow_iff_forall₂ {as bs : List Token} :
    sameRow as bs = true ↔ List.Forall₂ (fun a b => same a b = true) as bs := by
  simp only [sameRow, Bool.and_eq_true, decide_eq_true_eq, List.all_eq_true, List.forall₂_iff_zip]
  exact and_congr_right fun _ => ⟨fun all _ _ mem => all _ mem, fun all _ mem => all mem⟩

/-- The name that a token is, if it is one. -/
theorem name_eq_of_same {a b : Token} (same : same a b = true) :
    (if a.kind = .identifier then some a.text else none) =
      if b.kind = .identifier then some b.text else none := by
  unfold Token.same at same
  split at same
  · next isA isB => simp [isA, isB]
  · cases same
  · cases same
  · rw [Bool.and_eq_true, decide_eq_true_eq, decide_eq_true_eq] at same
    rw [same.1, same.2]

end TidyScript.Token
