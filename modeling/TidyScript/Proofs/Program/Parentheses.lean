import TidyScript.Proofs.Grammar.Binding
import TidyScript.Proofs.Program.Forest

/-!
# Parentheses are where they are needed

Which text needs parentheses in the place of an expression is decided by the ladder of strengths,
and which expressions a source is read as is decided by the powers of the operators. The two agree:
put back as it is, no expression of a program needs parentheses that it does not have. The one
exception are `??` and `&&` or `||` side by side, which are read as they come and which the rule
never lets stand.

A program that has been read keeps both accounts that the proof needs: its expressions fit, so that
every child binds as its place asks, and no two children have the same number, so that the rule
knows the child by its number.
-/

namespace TidyScript

open Grammar (State)

/-- The tokens of a row end one behind the other. -/
theorem Grammar.State.firm_ofRow {row : TokenRow} (lined : row.Lined) : (State.ofRow row).Firm := by
  refine ⟨lined.ended, List.pairwise_cons.2 ⟨fun stop mem => ?_, ?_⟩, nofun⟩
  · obtain ⟨token, memToken, rfl⟩ := List.mem_map.1 mem
    exact Nat.lt_of_le_of_lt (Nat.zero_le _) (lined.written token memToken)
  · refine List.pairwise_map.2 (lined.ordered.imp_of_mem fun {a b} _ memB le => ?_)
    exact Nat.lt_of_le_of_lt le (lined.written b memB)

/-- The children of a node have different names. -/
theorem Grammar.State.Accounts.nodup_children_of_mem {s : State} {held : List (Node Mark)}
    (accounts : s.Accounts held) {node : Node Mark} (mem : node ∈ s.nodes) :
    (node.children.map Node.id).Nodup := by
  have all := accounts.nodup_children
  rw [List.map_flatMap] at all
  exact (List.nodup_flatMap.1 all).1 node mem

namespace Program

variable {source : String} {program : Program}

/-- The expressions of a program that has been read fit, and its nodes are accounted for. -/
theorem exists_firm_of_read
    (read : parse source = .ok program ∨ ∃ e, parseExpression source = .ok (program, e)) :
    ∃ row body state held, program = ofState source row state body ∧ state.Accounts held ∧
      state.Firm := by
  rcases read with read | ⟨e, read⟩
  · obtain ⟨row, body, state, lexed, run, rfl⟩ := exists_run_of_parse read
    have first := stands_of_readTokens lexed
    exact ⟨row, body, state, _, rfl, (Grammar.readProgram_reads row first run).1.accounts,
      (Grammar.readProgram_leads.along run (State.firm_ofRow first.lined)).1⟩
  · obtain ⟨row, x, state, lexed, run, rfl⟩ := exists_run_of_parseExpression read
    have first := stands_of_readTokens lexed
    exact ⟨row, [x], state, _, rfl, (Grammar.readSingleExpression_reads row first run).1.accounts,
      (Grammar.readSingleExpression_leads.along run (State.firm_ofRow first.lined)).1⟩

/-- **In its own place, an expression needs parentheses only where connectives mix**, and there it
does: it is `??` directly below `&&` or `||`, or one of these directly below `??`, and has none. -/
theorem replacementNeedsParens_iff
    (read : parse source = .ok program ∨ ∃ e, parseExpression source = .ok (program, e))
    {e : Expr Mark} (mem : e ∈ program.exprs) :
    program.replacementNeedsParens e e.precedence = true ↔
      ∃ parent, program.parent? (.expr e.index) = some (.expr parent) ∧ parent.Mixes e := by
  obtain ⟨row, body, state, held, rfl, accounts, firm⟩ := exists_firm_of_read read
  unfold replacementNeedsParens
  by_cases inside : e.isParenthesized = true
  · rw [if_pos inside]
    refine iff_of_false Bool.false_ne_true ?_
    rintro ⟨_, _, bare, _⟩
    rw [inside] at bare
    cases bare
  · rw [if_neg inside]
    cases above : (ofState source row state body).parent? (.expr e.index) with
    | none => simp
    | some node =>
      cases node with
      | stmt x => simp
      | expr parent =>
        obtain ⟨memParent, child, below, name⟩ := (parent?_ofState accounts _ _).1 above
        have memExpr : .expr e ∈ state.nodes :=
          List.mem_append_left _ (List.mem_map.2 ⟨e, Array.mem_toList_iff.2 mem, rfl⟩)
        obtain rfl : child = .expr e :=
          accounts.eq_of_id_eq (accounts.mem_of_child memParent below) memExpr name
        have fits : parent.Fits := firm.fits parent (by simpa [State.nodes] using memParent)
        have needs := Expr.childNeedsParens_iff fits (accounts.nodup_children_of_mem memParent) below
        refine needs.trans ⟨fun mixes => ⟨parent, rfl, mixes⟩, ?_⟩
        rintro ⟨_, same, mixes⟩
        cases same
        exact mixes

/-- A connective stands below another one that it does not mix with, with parentheses and without;
signs stand in front of `**`, which groups to the right. -/
theorem replacementNeedsParens_iff_mixed :
    ∃ program, parse "f(a??b||c,(a&&b)??c,-d**e**g,(h,i)?j:k=l)" = .ok program ∧
      program.exprs.size = 26 ∧
      program.exprs.toList.countP (fun e => program.replacementNeedsParens e e.precedence) = 1 ∧
      ∀ e ∈ program.exprs, program.replacementNeedsParens e e.precedence = true ↔
        ∃ parent, program.parent? (.expr e.index) = some (.expr parent) ∧ parent.Mixes e := by
  have checked : (parse "f(a??b||c,(a&&b)??c,-d**e**g,(h,i)?j:k=l)").toOption.any
      (fun program => program.exprs.size = 26 ∧
        program.exprs.toList.countP (fun e => program.replacementNeedsParens e e.precedence) = 1) =
      true := by
    decide +kernel
  obtain ⟨program, read, checked⟩ := exists_ok_of_any checked
  obtain ⟨count, mixed⟩ := of_decide_eq_true checked
  exact ⟨program, read, count, mixed, fun e mem => replacementNeedsParens_iff (.inl read) mem⟩

end Program

end TidyScript
