import TidyScript.Proofs.Grammar.Operator
import TidyScript.Proofs.Grammar.Passage
import TidyScript.Proofs.Phrase.Basic
import TidyScript.Proofs.Tree.Operand

/-!
# What a parse promises of its result

The grammar has its own table of powers for the operators between operands, and the ladder of
strengths stands two rungs above it. An operator that is too weak for the right operand of another
one may take what that one builds as its left operand; this is where the two tables have to agree.

A state is firm when all expressions in its table fit. `Builds` says of a parse that it leads from
a firm state to a firm one and keeps a promise about its result, mostly that it binds with a given
strength at least.

Parentheses count only where they can be seen, that is where they lie apart from what they enclose.
So it is promised as well that a result has been read in full, and of a firm state that the tokens
ahead end behind the token read last.
-/

namespace TidyScript.Grammar

open Phrase (power_le rank_precedence)

variable {α β : Type}

/-! ## The two tables -/

namespace Infix

/-- The least power that the left operand may be built with. -/
def leftLeast (op : Infix) : Nat :=
  if op = binary .power then op.power + 1 else op.power

theorem leftLeast_le (op : Infix) : op.leftLeast ≤ 13 := by
  have := power_le op
  unfold leftLeast
  split <;> omega

/-- Only `**` has the greatest power. -/
theorem power_lt {op : Infix} (other : op ≠ binary .power) : op.power < 12 := by
  rcases op with op | op <;> cases op <;> first | decide | exact absurd rfl other

/-- An operator too weak for the right operand of another one may take what that one builds as its
left operand. -/
theorem leftLeast_le_power {op next : Infix} (weak : next.power < op.rightLeast) :
    next.leftLeast ≤ op.power := by
  have other : next ≠ binary .power := by
    rintro rfl
    by_cases same : op = binary .power
    · subst same
      exact absurd weak (Nat.lt_irrefl _)
    · have weak : 12 < op.rightLeast := weak
      have := power_lt same
      rw [rightLeast, if_neg same] at weak
      omega
  rw [leftLeast, if_neg other]
  rw [rightLeast] at weak
  split at weak <;> omega

/-- What an operator asks of its operands, on the ladder of strengths. -/
theorem rank_eq_least {op : BinaryOp} :
    op.leftRank = (binary op).leftLeast + 2 ∧ op.rightRank = (binary op).rightLeast + 2 := by
  cases op <;> exact ⟨rfl, rfl⟩

theorem fits_build {op : Infix} {left right : Expr Mark} (tightLeft : op.leftLeast + 2 ≤ left.rank)
    (tightRight : op.rightLeast + 2 ≤ right.rank) (mark : Mark) :
    (op.build left right mark).Fits := by
  cases op with
  | logical op =>
    have rank : op.precedence.rank = (logical op).power + 2 := rank_precedence (.logical op)
    simp only [leftLeast, rightLeast, reduceCtorEq, reduceIte] at tightLeft tightRight
    exact ⟨by omega, by omega⟩
  | binary op =>
    have least := @rank_eq_least op
    exact ⟨least.1 ▸ tightLeft, least.2 ▸ tightRight⟩

theorem inherent_build (op : Infix) (left right : Expr Mark) (mark : Mark) :
    (op.build left right mark).inherent = op.precedence := by
  cases op <;> rfl

end Infix

/-! ## States whose expressions fit -/

/-- The tokens ahead end one behind the other, behind the token read last, and the expressions in
the table fit. -/
structure State.Firm (s : State) : Prop where
  ended : s.stop.kind = .eof
  ahead : (s.lastEnd :: s.rest.map fun token => token.span.stop).Pairwise (· < ·)
  fits : ∀ e ∈ s.exprs, e.Fits

/-- The second state is firm if the first one is, and not before it. -/
def State.Onward (s s' : State) : Prop :=
  s.Firm → s'.Firm ∧ s.lastEnd ≤ s'.lastEnd

namespace State.Firm

variable {s : State} {e : Expr Mark}

theorem next (firm : s.Firm) : s.next.Firm := by
  obtain ⟨rest, stop, lastEnd, noIn, exprs, stmts⟩ := s
  cases rest with
  | nil => exact firm
  | cons token rest => exact ⟨firm.ended, firm.ahead.tail, firm.fits⟩

theorem lastEnd_le (firm : s.Firm) : s.lastEnd ≤ s.next.lastEnd := by
  obtain ⟨rest, stop, lastEnd, noIn, exprs, stmts⟩ := s
  cases rest with
  | nil => exact Nat.le_refl _
  | cons token rest =>
    exact Nat.le_of_lt (List.rel_of_pairwise_cons firm.ahead (List.mem_cons_self ..))

/-- A token that is not the end mark ends behind the token read last. -/
theorem lastEnd_lt (firm : s.Firm) (live : s.current.kind ≠ .eof) :
    s.lastEnd < s.current.span.stop := by
  obtain ⟨rest, stop, lastEnd, noIn, exprs, stmts⟩ := s
  cases rest with
  | nil => exact absurd firm.ended live
  | cons token rest => exact List.rel_of_pairwise_cons firm.ahead (List.mem_cons_self ..)

theorem grow (firm : s.Firm) (fits : e.Fits) : (s.grow e).Firm := by
  refine ⟨firm.ended, firm.ahead, fun other mem => ?_⟩
  rcases Array.mem_push.1 mem with old | rfl
  · exact firm.fits other old
  · exact fits

theorem enclosing (firm : s.Firm) (fits : e.Fits) : (s.enclosing e).Firm := by
  refine ⟨firm.ended, firm.ahead, fun other mem => ?_⟩
  rcases Array.mem_or_eq_of_mem_setIfInBounds mem with old | rfl
  · exact firm.fits other old
  · exact fits

instance passage : Passage State.Onward where
  refl _ firm := ⟨firm, Nat.le_refl _⟩
  trans first second firm :=
    ⟨(second (first firm).1).1, Nat.le_trans (first firm).2 (second (first firm).1).2⟩
  next _ firm := ⟨firm.next, firm.lastEnd_le⟩
  inMode _ _ firm := ⟨⟨firm.ended, firm.ahead, firm.fits⟩, Nat.le_refl _⟩
  growStmt _ _ firm := ⟨⟨firm.ended, firm.ahead, firm.fits⟩, Nat.le_refl _⟩

end State.Firm

/-! ## What is promised of a result -/

/-- The expression binds with the given strength at least, fits, and has been read in full. -/
structure Strong (least : Nat) (e : Expr Mark) (s : State) : Prop where
  rank : least ≤ e.rank
  fits : e.Fits
  ends : e.span.stop ≤ s.lastEnd

theorem Strong.less {least less : Nat} {e : Expr Mark} {s : State} (strong : Strong least e s)
    (weaker : less ≤ least) : Strong less e s :=
  ⟨Nat.le_trans weaker strong.rank, strong.fits, strong.ends⟩

/-- What has been added to an operand, if anything, can be continued. -/
def Linked (found : Option (Expr Mark)) (s : State) : Prop :=
  ∀ e, found = some e → Strong 17 e s

/-- Among the nodes, no expression is a sequence without parentheses. -/
def Commaless (nodes : List (Node Mark)) : Prop :=
  ∀ e, .expr e ∈ nodes → 1 ≤ e.rank

namespace Commaless

theorem nil : Commaless [] := nofun

theorem singleton {e : Expr Mark} (tight : 1 ≤ e.rank) : Commaless [.expr e] := by
  intro child mem
  obtain rfl : child = e := by simpa using mem
  exact tight

theorem append {nodes others : List (Node Mark)} (first : Commaless nodes)
    (second : Commaless others) : Commaless (nodes ++ others) :=
  fun e mem => (List.mem_append.1 mem).elim (first e) (second e)

theorem flatMap {items : List α} {nodes : α → List (Node Mark)}
    (each : ∀ item ∈ items, Commaless (nodes item)) : Commaless (items.flatMap nodes) := by
  intro e mem
  obtain ⟨item, memItem, below⟩ := List.mem_flatMap.1 mem
  exact each item memItem e below

theorem map {items : List (Expr Mark)} (each : ∀ e ∈ items, 1 ≤ e.rank) :
    Commaless (items.map .expr) := by
  intro e mem
  exact each e (by simpa using mem)

theorem block (body : List (Stmt Mark)) : Commaless (Expr.bodyNodes (.block body)) := by
  intro e mem
  simp [Expr.bodyNodes] at mem

end Commaless

/-- What is built carries its mark, binds by its shape with the given strength, and fits. -/
structure Shapes (strength : Precedence) (build : Mark → Expr Mark) : Prop where
  marks : ∀ mark, (build mark).mark = mark
  inherent : ∀ mark, (build mark).inherent = strength
  fits : ∀ mark, (build mark).Fits

namespace Shapes

variable {strength : Precedence} {build : Mark → Expr Mark}

/-- A new expression is not in parentheses yet. -/
theorem rank (shapes : Shapes strength build) {mark : Mark} (bare : mark.outer = mark.span) :
    (build mark).rank = strength.rank := by
  rw [← shapes.inherent mark]
  refine Expr.rank_of_not_isParenthesized ?_
  rw [Expr.isParenthesized, shapes.marks, Mark.isParenthesized, bare]
  simp

theorem strong (shapes : Shapes strength build) (s : State) (start : Nat) :
    Strong strength.rank (build (s.markFrom start)) (s.grow (build (s.markFrom start))) := by
  refine ⟨Nat.le_of_eq (shapes.rank rfl).symm, shapes.fits _, ?_⟩
  rw [Expr.span, shapes.marks]
  exact Nat.le_refl _

end Shapes

/-! ## Parses that keep the promise -/

/-- From a firm state the parse leads on to a firm one, with a good result. -/
def Builds (good : α → State → Prop) (x : Parse α) : Prop :=
  ∀ ⦃s : State⦄ ⦃a : α⦄ ⦃s' : State⦄, s.Firm → x s = .ok a s' →
    (s'.Firm ∧ s.lastEnd ≤ s'.lastEnd) ∧ good a s'

/-- Nothing is promised of the result. -/
abbrev Leads (x : Parse α) : Prop :=
  Along State.Onward x

namespace Builds

variable {good : α → State → Prop} {good' : β → State → Prop}

theorem leads {x : Parse α} (builds : Builds good x) : Leads x :=
  ⟨fun run firm => (builds firm run).1⟩

theorem imp {fair : α → State → Prop} {x : Parse α} (builds : Builds good x)
    (weaker : ∀ a s, good a s → fair a s) : Builds fair x :=
  fun _ _ _ firm run => ⟨(builds firm run).1, weaker _ _ (builds firm run).2⟩

theorem pure {a : α} (isGood : ∀ s, good a s) : Builds good (Pure.pure a) := by
  rintro s _ _ firm ⟨⟩
  exact ⟨⟨firm, Nat.le_refl _⟩, isGood s⟩

/-- What follows may use what has been promised, but not where. -/
theorem bind {x : Parse β} {f : β → Parse α} (first : Builds good' x)
    (further : ∀ b s, good' b s → Builds good (f b)) : Builds good (x >>= f) := by
  intro s a s'' firm run
  obtain ⟨b, s', run, run'⟩ := bind_eq_ok.1 run
  obtain ⟨⟨firm', le⟩, isGood⟩ := first firm run
  obtain ⟨⟨firm'', le'⟩, last⟩ := further b s' isGood firm' run'
  exact ⟨⟨firm'', Nat.le_trans le le'⟩, last⟩

theorem pass {x : Parse β} {f : β → Parse α} (first : Leads x)
    (further : ∀ b, Builds good (f b)) : Builds good (x >>= f) :=
  bind (fun _ _ _ firm run => ⟨first.along run firm, trivial⟩ : Builds (fun _ _ => True) x)
    fun b _ _ => further b

/-- A step that touches no table. -/
theorem skip {x : Parse β} {f : β → Parse α} [Still x]
    (further : ∀ b, Builds good (f b)) : Builds good (x >>= f) :=
  pass .of_still further

theorem ite {c : Prop} [Decidable c] {x y : Parse α} (yes : Builds good x) (no : Builds good y) :
    Builds good (if c then x else y) := by
  split
  · exact yes
  · exact no

theorem expected (what : String) : Builds good (Grammar.expected what) :=
  fun _ _ _ _ run => absurd run expected_ne_ok

theorem unexpected : Builds good Grammar.unexpected :=
  fun _ _ _ _ run => absurd run unexpected_ne_ok

theorem finishExpr {least start : Nat} {build : Mark → Expr Mark} (strength : Precedence)
    (shapes : Shapes strength build) (tight : least ≤ strength.rank) :
    Builds (Strong least) (Grammar.finishExpr start build) := by
  intro s e s' firm run
  obtain ⟨rfl, rfl⟩ := finishExpr_eq_ok.1 run
  exact ⟨⟨firm.grow (shapes.fits _), Nat.le_refl _⟩, (shapes.strong s start).less tight⟩

/-- Completing a link. -/
theorem link {start : Nat} {build : Mark → Expr Mark} (strength : Precedence)
    (shapes : Shapes strength build) (tight : 17 ≤ strength.rank) :
    Builds Linked (do return some (← Grammar.finishExpr start build)) := by
  intro s found s' firm run
  obtain ⟨e, middle, made, last⟩ := bind_eq_ok.1 run
  obtain ⟨rfl, rfl⟩ := pure_eq_ok.1 last
  obtain ⟨onward, strong⟩ := Builds.finishExpr strength shapes tight firm made
  refine ⟨onward, fun _ same => ?_⟩
  cases same
  exact strong

/-- A name that is placed where its token is. -/
theorem pushName (span : Span) (name : String) :
    Builds (fun e _ => 1 ≤ e.rank) (pushExpr span (.identifier · name)) := by
  rintro s _ _ firm ⟨⟩
  have shapes : Shapes .primary (.identifier · name) := ⟨fun _ => rfl, fun _ => rfl, fun _ => nofun⟩
  have rank := @Shapes.rank _ _ shapes ⟨s.exprs.size, span, span⟩ rfl
  exact ⟨⟨firm.grow nofun, Nat.le_refl _⟩, Nat.le_trans (by decide) (Nat.le_of_eq rank.symm)⟩

theorem withNoIn {fair : α → Prop} {x : Parse α} (builds : Builds (fun a _ => fair a) x)
    (noIn : Bool) : Builds (fun a _ => fair a) (Grammar.withNoIn noIn x) := by
  intro s a s' firm run
  have leads := builds.leads
  have onward : s.Onward s' := (Along.withNoIn noIn).along run
  refine ⟨onward firm, ?_⟩
  obtain ⟨middle, inner, rfl⟩ := withNoIn_eq_ok.1 run
  exact (builds (State.Firm.passage.inMode s noIn firm).1 inner).2

theorem manyUpTo {fair : α → Prop} {stop : Parse Bool} {item : Parse α} [Still stop]
    (builds : Builds (fun a _ => fair a) item) (bound : Nat) :
    Builds (fun items _ => ∀ a ∈ items, fair a) (Grammar.manyUpTo stop item bound) := by
  induction bound with
  | zero => exact .unexpected
  | succ bound ih =>
    exact .skip fun _ => .ite (.pure nofun) <| .bind builds fun _ _ first =>
      .bind ih fun _ _ others => .pure fun _ => List.forall_mem_cons.2 ⟨first, others⟩

theorem manyUntil {fair : α → Prop} {stop : Parse Bool} {item : Parse α} [Still stop]
    (builds : Builds (fun a _ => fair a) item) :
    Builds (fun items _ => ∀ a ∈ items, fair a) (Grammar.manyUntil stop item) :=
  .skip fun _ => .manyUpTo builds _

theorem commaList {fair : α → Prop} {close : String} {item : Parse α}
    (builds : Builds (fun a _ => fair a) item) :
    Builds (fun items _ => ∀ a ∈ items, fair a) (Grammar.commaList close item) := by
  have each : Builds (fun a _ => fair a) (do
      let value ← item
      if !(← atPunct close) then
        let _ ← expectPunct ","
      return value) :=
    .bind builds fun _ _ isFair => .skip fun _ => .ite
      (.skip fun _ => .pure fun _ => isFair) (.pure fun _ => isFair)
  exact .bind (.manyUntil each) fun _ _ all => .skip fun _ => .pure fun _ => all

/-- A loop ends with a step that adds nothing, and up to there its invariant has been kept. -/
theorem extendUpTo {step : α → Parse (Option α)} {holds : α → State → Prop}
    (grows : ∀ ⦃v s w s'⦄, s.Firm → holds v s → step v s = .ok (some w) s' →
      (s'.Firm ∧ s.lastEnd ≤ s'.lastEnd) ∧ holds w s')
    {bound : Nat} {v w : α} {s s' : State} (run : extendUpTo step bound v s = .ok w s')
    (firm : s.Firm) (start : holds v s) :
    ∃ last, (last.Firm ∧ s.lastEnd ≤ last.lastEnd) ∧ holds w last ∧
      step w last = .ok none s' := by
  induction bound generalizing v s with
  | zero => exact absurd run extendUpTo_zero
  | succ bound ih =>
    rcases extendUpTo_succ.1 run with ⟨ends, rfl⟩ | ⟨longer, middle, first, rest⟩
    · exact ⟨s, ⟨firm, Nat.le_refl _⟩, start, ends⟩
    · obtain ⟨⟨firm', le⟩, kept⟩ := grows firm start first
      obtain ⟨last, ⟨firm'', le'⟩, final⟩ := ih rest firm' kept
      exact ⟨last, ⟨firm'', Nat.le_trans le le'⟩, final⟩

end Builds

end TidyScript.Grammar
