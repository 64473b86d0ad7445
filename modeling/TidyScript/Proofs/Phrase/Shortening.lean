import TidyScript.Proofs.Phrase.Airy
import TidyScript.Proofs.Phrase.Weight
import TidyScript.Proofs.Value.Law

/-!
# Shortening a phrase

What a logical expression is shortened to, wherever its phrase stands, is the text of a legible
phrase that binds as the program says, weighs less and has the same value, as long as the name
`undefined` is not bound. Looking for it never fails.
-/

namespace TidyScript

open Grammar Token

/-! ## Phrases behind nodes -/

theorem Piece.identifier_of_leaf {p : Piece} (operand : p.isOperand = true) {mark mark' : Mark}
    {name : String} (leaf : p.leaf mark = .identifier mark' name) :
    p.kind = .identifier ∧ String.ofList p.text = name := by
  unfold isOperand Token.isOperand at operand
  unfold Piece.leaf atom? at leaf
  split at operand
  · next kind =>
    rw [kind] at leaf
    exact ⟨kind, (Expr.identifier.inj leaf).2⟩
  · next kind => rw [kind] at leaf; cases leaf
  · next kind => rw [kind] at leaf; cases leaf
  · next kind =>
    rw [kind] at leaf
    simp only [List.contains_iff_mem, List.mem_cons, List.not_mem_nil, or_false] at operand
    rcases operand with text | text | text <;> simp [text] at leaf
  · cases operand

namespace Phrase

section Nodes

variable {φ : Phrase} {count offset : Nat} {mark : Mark}

/-- The phrase is made like the node. -/
def Mirrors (φ : Phrase) (count offset : Nat) : Expr Mark → Prop
  | .identifier .. => ∃ word, φ = atom word
  | .unary _ op argument => ∃ sign operand, φ = signed sign op operand ∧
      argument = operand.node count (offset + sign.bytes)
  | .logical _ op x y => ∃ left sign right, φ = linked (.logical op) left sign right ∧
      x = left.node count offset ∧
        y = right.node (count + (left.inside + 1)) (offset + left.bytes + sign.bytes)
  | .conditional _ x y z => ∃ test question yes colon no,
      φ = choice test question yes colon no ∧ x = test.node count offset ∧
        y = yes.node (count + (test.inside + 1)) (offset + test.bytes + question.bytes) ∧
          z = no.node (count + (test.inside + 1) + (yes.inside + 1))
            (offset + test.bytes + question.bytes + yes.bytes + colon.bytes)
  | _ => True

theorem mirrors_of_node (core : φ.isGroup = false) {e : Expr Mark}
    (node : φ.node count offset = e) : φ.Mirrors count offset e := by
  subst node
  cases φ with
  | atom word =>
    rw [node_atom]
    rcases word.leaf_cases ((atom word).mark count offset) with
      ⟨_, leaf⟩ | ⟨_, leaf⟩ | leaf | leaf <;> simp [leaf, Mirrors]
  | group => cases core
  | signed sign op operand => exact ⟨sign, operand, rfl, rfl⟩
  | linked op left sign right =>
    cases op with
    | binary => trivial
    | logical => exact ⟨left, sign, right, rfl, rfl, rfl⟩
  | choice test question yes colon no => exact ⟨test, question, yes, colon, no, rfl, rfl, rfl, rfl⟩
  | comma =>
    rw [node_comma]
    trivial

theorem weight_of_logical {op : LogicalOp} {left right : Phrase} {c₁ o₁ c₂ o₂ : Nat}
    (node : φ.node count offset = .logical mark op (left.node c₁ o₁) (right.node c₂ o₂)) :
    φ.weight = 2 * left.weight + right.weight + 1 := by
  rw [← weight_node φ count offset, node, Expr.weight, weight_node, weight_node]
  rfl

theorem weight_of_conditional {test yes no : Phrase} {c₁ o₁ c₂ o₂ c₃ o₃ : Nat}
    (node : φ.node count offset =
      .conditional mark (test.node c₁ o₁) (yes.node c₂ o₂) (no.node c₃ o₃)) :
    φ.weight = test.weight + yes.weight + no.weight := by
  rw [← weight_node φ count offset, node, Expr.weight, weight_node, weight_node, weight_node]

end Nodes

end Phrase

namespace Phrase.Stands

variable {airy : Prop} {row : List Piece} {φ : Phrase} {offset count : Nat} {mark : Mark}

section Cores

variable (stands : φ.Stands airy row offset)
include stands

/-- The phrase behind a node, without the parentheses around it. -/
theorem exists_core (count : Nat) :
    ∃ (ψ : Phrase) (place : Nat) (mark : Mark), ψ.Stands airy row place ∧ ψ.isGroup = false ∧
      ψ.node count place = (φ.node count offset).withMark mark ∧
        ∀ bindings, φ.value bindings = ψ.value bindings := by
  obtain ⟨ψ, before, behind, outer, parts, ⟨grouped, core⟩, node, value⟩ :=
    stands.grouped.exists_core count offset
  refine ⟨ψ, _, (ψ.node count (offset + Piece.width before)).mark,
    ⟨stands.isAt.part before behind parts, stands.neat.part before behind parts grouped⟩, core, ?_,
    fun b => (value b).symm⟩
  rw [node, enclosed, Expr.withMark_withMark, Expr.withMark_mark]

theorem of_identifier {name : String} (node : φ.node count offset = .identifier mark name) :
    ∃ word place, (Phrase.atom word).Stands airy row place ∧ String.ofList word.text = name ∧
      ∀ bindings, φ.value bindings = word.value bindings := by
  obtain ⟨ψ, place, mark', standsψ, core, nodeψ, value⟩ := stands.exists_core count
  rw [node] at nodeψ
  obtain ⟨word, rfl⟩ := Phrase.mirrors_of_node core nodeψ
  refine ⟨word, place, standsψ, ?_, value⟩
  exact (Piece.identifier_of_leaf standsψ.grouped nodeψ).2

theorem of_not {op : UnaryOp} {argument : Expr Mark}
    (node : φ.node count offset = .unary mark op argument) :
    ∃ (ψ : Phrase) (place : Nat), ψ.Stands airy row place ∧ argument = ψ.node count place ∧
      ∀ bindings, φ.value bindings = (ψ.value bindings).bind op.result? := by
  obtain ⟨ψ, place, mark', standsψ, core, nodeψ, value⟩ := stands.exists_core count
  rw [node] at nodeψ
  obtain ⟨sign, operand, rfl, rfl⟩ := Phrase.mirrors_of_node core nodeψ
  exact ⟨operand, _, standsψ.signed, rfl, value⟩

theorem of_logical {op : LogicalOp} {x y : Expr Mark}
    (node : φ.node count offset = .logical mark op x y) :
    ∃ (left right : Phrase) (count₁ place₁ count₂ place₂ : Nat),
      left.Stands airy row place₁ ∧ right.Stands airy row place₂ ∧
        (x = left.node count₁ place₁ ∧ y = right.node count₂ place₂) ∧
          ∀ bindings, φ.value bindings = op.outcome (left.value bindings) (right.value bindings) := by
  obtain ⟨ψ, place, mark', standsψ, core, nodeψ, value⟩ := stands.exists_core count
  rw [node] at nodeψ
  obtain ⟨left, sign, right, rfl, rfl, rfl⟩ := Phrase.mirrors_of_node core nodeψ
  obtain ⟨standsLeft, standsRight⟩ := standsψ.linked
  exact ⟨left, right, _, _, _, _, standsLeft, standsRight, ⟨rfl, rfl⟩, value⟩

theorem of_conditional {x y z : Expr Mark} (node : φ.node count offset = .conditional mark x y z) :
    ∃ (test yes no : Phrase) (count₁ place₁ count₂ place₂ count₃ place₃ : Nat),
      (test.Stands airy row place₁ ∧ yes.Stands airy row place₂ ∧ no.Stands airy row place₃ ∧
        1 ≤ no.rank) ∧
        (x = test.node count₁ place₁ ∧ y = yes.node count₂ place₂ ∧ z = no.node count₃ place₃) ∧
          ∀ bindings, φ.value bindings =
            Value.pick (test.value bindings) (yes.value bindings) (no.value bindings) := by
  obtain ⟨ψ, place, mark', standsψ, core, nodeψ, value⟩ := stands.exists_core count
  rw [node] at nodeψ
  obtain ⟨test, question, yes, colon, no, rfl, rfl, rfl, rfl⟩ := Phrase.mirrors_of_node core nodeψ
  obtain ⟨_, _, _, _, tight⟩ := standsψ.grouped
  obtain ⟨standsTest, standsYes, standsNo⟩ := standsψ.choice
  exact ⟨test, yes, no, _, _, _, _, _, _, ⟨standsTest, standsYes, standsNo, tight⟩,
    ⟨rfl, rfl, rfl⟩, value⟩

end Cores

/-! ## Texts of operands -/

section Texts

variable {program : Program} (spells : program.Spells row) (stands : φ.Stands airy row offset)
include spells stands

theorem fragment_eq (count : Nat) :
    program.fragment (φ.node count offset) = .ok ⟨String.ofList φ.text, φ.strength⟩ := by
  rw [Program.fragment, stands.isAt.exprSource_eq spells, stands.grouped.precedence_node]
  rfl

theorem operand_eq (count : Nat) (parent : Precedence) (right : Bool) (gap : List Char) :
    program.operand (φ.node count offset) parent right =
      .ok (String.ofList (φ.operand parent right gap).text) := by
  rw [Program.operand, stands.fragment_eq spells, Phrase.ofList_text_operand]
  rfl

theorem testOperand_eq (count : Nat) (gap : List Char) :
    program.testOperand (φ.node count offset) = .ok (String.ofList (φ.asTest gap).text) := by
  rw [Program.testOperand, stands.fragment_eq spells, Phrase.ofList_text_asTest]
  rfl

theorem branchOperand_eq (count : Nat) (gap : List Char) :
    program.branchOperand (φ.node count offset) =
      .ok (String.ofList (φ.operand .assignment false gap).text) :=
  stands.operand_eq spells count .assignment false gap

end Texts

end Phrase.Stands

namespace Phrase

/-! ## New connectives and conditionals -/

/-- The blank in front of new signs and operands. -/
def blank : List Char := [' ']

theorem gap_blank : Gap false blank :=
  .blank (by decide) (by decide) .nil

/-- Two phrases with a connective between them. -/
def connect (op : LogicalOp) (left right : Phrase) : Phrase :=
  linked (.logical op) left (Piece.sign blank op.text) right

/-- Two phrases joined by a connective, in parentheses where it asks for them. -/
def join (op : LogicalOp) (gap : List Char) (φ ψ : Phrase) : Phrase :=
  connect op (φ.operand op.precedence false gap) (ψ.operand op.precedence true blank)

/-- Three phrases made into a conditional. -/
def fold (test yes no : Phrase) : Phrase :=
  choice test (Piece.sign blank "?") yes (Piece.sign blank ":") no

section Join

variable {op : LogicalOp} {gap : List Char} {φ ψ : Phrase} {b : Bool}

theorem linkOp?_sign (op : LogicalOp) (gap : List Char) :
    (Piece.sign gap op.text).linkOp? = some (.logical op) := by
  cases op <;> rfl

theorem legible_connect (legibleφ : φ.Legible) (holds : (Infix.logical op).power < φ.hold)
    (legibleψ : ψ.Legible) (tight : (Infix.logical op).rightLeast + 2 ≤ ψ.rank) :
    (connect op φ ψ).Legible := by
  refine legible_logical ⟨linkOp?_sign op blank, ⟨legibleφ.grouped, holds⟩, legibleψ.grouped, tight⟩
    legibleφ (whole_sign gap_blank ?_) legibleψ
  cases op <;> decide

variable {airy : Prop}

theorem neat_connect (neatφ : φ.Neat airy) (holds : (Infix.logical op).power < φ.hold)
    (neatψ : ψ.Neat airy) (tight : (Infix.logical op).rightLeast + 2 ≤ ψ.rank) :
    (connect op φ ψ).Neat airy := by
  have legible := legible_connect neatφ.legible holds neatψ.legible tight
  exact ⟨legible, fun asked => (airy_logical legible.grouped).2 ⟨neatφ.airy asked, neatψ.airy asked⟩⟩

theorem neat_join (isGap : Gap b gap) (neatφ : φ.Neat airy) (neatψ : ψ.Neat airy) :
    (join op gap φ ψ).Neat airy :=
  neat_connect (neatφ.operand isGap) power_lt_hold_operand (neatψ.operand gap_blank)
    rightLeast_le_rank_operand

@[simp] theorem weight_connect :
    (connect op φ ψ).weight = 2 * φ.weight + ψ.weight + 1 := rfl

@[simp] theorem weight_join : (join op gap φ ψ).weight = 2 * φ.weight + ψ.weight + 1 := by
  rw [join, weight_connect, weight_operand, weight_operand]

theorem value_connect (bindings : Bindings) :
    (connect op φ ψ).value bindings = op.outcome (φ.value bindings) (ψ.value bindings) := rfl

theorem value_join (bindings : Bindings) :
    (join op gap φ ψ).value bindings = op.outcome (φ.value bindings) (ψ.value bindings) := by
  rw [join, value_connect, value_operand, value_operand]

theorem ofList_text_connect (space : ψ.first.gap = blank) : String.ofList (connect op φ ψ).text =
    String.ofList φ.text ++ " " ++ op.text ++ " " ++ String.ofList ψ.text := by
  rw [connect, text_linked, space]
  apply String.ext
  simp [Piece.sign, Piece.chars, blank]

theorem ofList_text_join : String.ofList (join op gap φ ψ).text =
    String.ofList (φ.operand op.precedence false gap).text ++ " " ++ op.text ++ " " ++
      String.ofList (ψ.operand op.precedence true blank).text :=
  ofList_text_connect gap_operand

theorem one_le_rank_connect (op : LogicalOp) (φ ψ : Phrase) : 1 ≤ (connect op φ ψ).rank := by
  cases op <;> exact Nat.le_add_left 1 _

theorem one_le_rank_wrap (φ : Phrase) (gap : List Char) : 1 ≤ (φ.wrap gap).rank := by
  simp [wrap]

/-- The phrase may be a branch of a new conditional, where it is written as the text. -/
structure Branch (airy : Prop) (text : String) (φ : Phrase) : Prop where
  neat : φ.Neat airy
  single : 1 ≤ φ.rank
  space : φ.first.gap = blank
  spelled : String.ofList φ.text = text

theorem Branch.operand (neat : φ.Neat airy) :
    Branch airy (String.ofList (φ.operand .assignment false blank).text)
      (φ.operand .assignment false blank) :=
  ⟨neat.operand gap_blank, one_le_rank_branch, gap_operand, rfl⟩

theorem Branch.led (neat : φ.Neat airy) (single : 1 ≤ φ.rank) :
    Branch airy (String.ofList φ.text) (φ.led blank) :=
  ⟨neat.led gap_blank, by rwa [rank_led], by rw [first_led]; rfl, by rw [text_led]⟩

theorem Branch.join (neatφ : φ.Neat airy) (neatψ : ψ.Neat airy) :
    Branch airy ("(" ++ String.ofList (Phrase.join op [] φ ψ).text ++ ")")
      ((Phrase.join op [] φ ψ).wrap blank) :=
  ⟨(neat_join .nil neatφ neatψ).wrap gap_blank, one_le_rank_wrap _ _, rfl, ofList_text_wrap ..⟩

variable {test yes no : Phrase} {textYes textNo : String}

theorem neat_fold (neat : test.Neat airy) (tight : 3 ≤ test.rank)
    (whenYes : Branch airy textYes yes) (whenNo : Branch airy textNo no) :
    (fold test yes no).Neat airy := by
  have legible : (fold test yes no).Legible :=
    legible_choice ⟨⟨isPunct_sign blank "?", isPunct_sign blank ":"⟩,
      ⟨neat.legible.grouped, tight⟩, ⟨whenYes.neat.legible.grouped, whenYes.single⟩,
      whenNo.neat.legible.grouped, whenNo.single⟩ neat.legible (whole_sign gap_blank (by decide))
      whenYes.neat.legible (whole_sign gap_blank (by decide)) whenNo.neat.legible
  exact ⟨legible, fun asked => (airy_choice legible.grouped).2
    ⟨neat.airy asked, whenYes.neat.airy asked, whenNo.neat.airy asked⟩⟩

@[simp] theorem weight_fold :
    (fold test yes no).weight = test.weight + yes.weight + no.weight := rfl

theorem value_fold (bindings : Bindings) : (fold test yes no).value bindings =
    Value.pick (test.value bindings) (yes.value bindings) (no.value bindings) := rfl

theorem ofList_text_fold (whenYes : Branch airy textYes yes) (whenNo : Branch airy textNo no) :
    String.ofList (fold test yes no).text =
      (Program.foldedTernary (String.ofList test.text) textYes textNo).replacement.text := by
  rw [fold, text_choice, whenYes.space, whenNo.space, ← whenYes.spelled, ← whenNo.spelled]
  apply String.ext
  simp [Program.foldedTernary, Piece.sign, Piece.chars, blank]

theorem Branch.fold (neat : test.Neat airy) (tight : 3 ≤ test.rank)
    (space : test.first.gap = blank) (whenYes : Branch airy textYes yes)
    (whenNo : Branch airy textNo no) :
    Branch airy (Program.foldedTernary (String.ofList test.text) textYes textNo).replacement.text
      (Phrase.fold test yes no) :=
  ⟨neat_fold neat tight whenYes whenNo, Nat.le_add_left 1 1, space, ofList_text_fold whenYes whenNo⟩

end Join

end Phrase

/-! ## The laws -/

/-- Shortening does not fail, and what it gives is the text of a legible phrase without commas,
with its strength, that weighs less than the given weight and has the given value. -/
def Shortens (airy : Prop) (outcome : Except Fault (Option Shortening)) (weight : Nat)
    (value : Bindings → Option Value) : Prop :=
  ∃ result, outcome = .ok result ∧ ∀ shortening, result = some shortening →
    ∃ ψ : Phrase, (ψ.Neat airy ∧ 1 ≤ ψ.rank) ∧
      shortening.replacement = ⟨String.ofList ψ.text, ψ.strength⟩ ∧ ψ.weight < weight ∧
        ∀ bindings, bindings "undefined" = none → ψ.value bindings = value bindings

section Shortens

variable {airy : Prop} {weight : Nat} {value : Bindings → Option Value}

theorem shortens_none : Shortens airy (.ok none) weight value :=
  ⟨none, rfl, fun _ found => nomatch found⟩

theorem Shortens.of_phrase {law : Law} {text : String} {strength : Precedence} (ψ : Phrase)
    (neat : ψ.Neat airy) (single : 1 ≤ ψ.rank) (spelled : text = String.ofList ψ.text)
    (strong : strength = ψ.strength) (light : ψ.weight < weight)
    (same : ∀ bindings, bindings "undefined" = none → ψ.value bindings = value bindings) :
    Shortens airy (.ok (some ⟨law, ⟨text, strength⟩⟩)) weight value := by
  refine ⟨_, rfl, ?_⟩
  rintro _ ⟨rfl⟩
  exact ⟨ψ, ⟨neat, single⟩, by rw [spelled, strong], light, same⟩

theorem Shortens.of_fold (test : Phrase) {yes no : Phrase} {text textYes textNo : String}
    (spelled : String.ofList test.text = text) (neat : test.Neat airy) (tight : 3 ≤ test.rank)
    (whenYes : Phrase.Branch airy textYes yes)
    (whenNo : Phrase.Branch airy textNo no) (light : (Phrase.fold test yes no).weight < weight)
    (same : ∀ bindings, bindings "undefined" = none →
      (Phrase.fold test yes no).value bindings = value bindings) :
    Shortens airy (.ok (some (Program.foldedTernary text textYes textNo))) weight value :=
  .of_phrase (.fold test yes no) (Phrase.neat_fold neat tight whenYes whenNo) (Nat.le_add_left 1 1)
    (spelled ▸ (Phrase.ofList_text_fold whenYes whenNo).symm) rfl light same

theorem Shortens.mono {outcome : Except Fault (Option Shortening)} {more : Nat}
    (shortens : Shortens airy outcome weight value) (heavy : weight ≤ more) :
    Shortens airy outcome more value := by
  obtain ⟨result, found, keeps⟩ := shortens
  refine ⟨result, found, fun shortening here => ?_⟩
  obtain ⟨ψ, neat, spelled, light, same⟩ := keeps shortening here
  exact ⟨ψ, neat, spelled, Nat.lt_of_lt_of_le light heavy, same⟩

/-- The second law is tried when the first one does not apply. -/
theorem Shortens.orElse {first second : Except Fault (Option Shortening)}
    (shortens₁ : Shortens airy first weight value) (shortens₂ : Shortens airy second weight value) :
    Shortens airy (do
      if let some shortening ← first then return some shortening
      second) weight value := by
  obtain ⟨result, rfl, keeps⟩ := shortens₁
  cases result with
  | none => exact shortens₂
  | some shortening => exact ⟨some shortening, rfl, keeps⟩

end Shortens

namespace Phrase

section Laws

variable {airy : Prop} {row : List Piece} {program : Program} (spells : program.Spells row)
  {op : LogicalOp} {left right : Phrase} {count₁ place₁ count₂ place₂ : Nat}
include spells

theorem Stands.value_eq_of_sameExpr {φ ψ : Phrase} {offset place count count' : Nat}
    (standsφ : φ.Stands airy row offset) (standsψ : ψ.Stands airy row place)
    (same : program.sameExpr (φ.node count offset) (ψ.node count' place) = true)
    (bindings : Bindings) : φ.value bindings = ψ.value bindings :=
  standsφ.isAt.value_eq_of_sameExpr spells standsφ.neat.legible standsψ.isAt standsψ.neat.legible
    same bindings

omit spells in
theorem shortens_tautology (standsLeft : left.Stands airy row place₁) :
    ∀ shortening, Program.tautology? (left.node count₁ place₁) (right.node count₂ place₂) =
      some shortening →
        Shortens airy (.ok (some shortening)) (2 * left.weight + right.weight + 1)
          fun bindings => op.outcome (left.value bindings) (right.value bindings) := by
  intro shortening found
  unfold Program.tautology? at found
  split at found
  · next m₁ a m₂ b nodeLeft nodeRight =>
    split at found
    · next same =>
      cases found
      subst same
      obtain ⟨word, place, stands, spelled, value⟩ := standsLeft.of_identifier nodeLeft
      refine .of_phrase (.atom word) stands.neat (by simp) ?_ rfl ?_ fun bindings _ => ?_
      · rw [← spelled]
        simp [text, pieces, Piece.written]
      · have := left.one_le_weight
        show 1 < _
        omega
      · have equal : right.value bindings = left.value bindings := by
          rw [← eval_node bindings right count₂ place₂,
            ← eval_node bindings left count₁ place₁, nodeLeft, nodeRight]
          rfl
        rw [equal, LogicalOp.outcome_self, value]
        rfl
    · cases found
  · cases found

theorem shortens_absorption (standsLeft : left.Stands airy row place₁) (single : 1 ≤ left.rank)
    (standsRight : right.Stands airy row place₂) :
    Shortens airy
      (program.absorption? op (left.node count₁ place₁) (right.node count₂ place₂))
        (2 * left.weight + right.weight + 1)
          fun bindings => op.outcome (left.value bindings) (right.value bindings) := by
  unfold Program.absorption?
  split
  · next dual m inner innerLeft innerRight isDual nodeRight =>
    split
    · next conditions =>
      simp only [Bool.and_eq_true, decide_eq_true_eq] at conditions
      obtain ⟨⟨rfl, _⟩, same⟩ := conditions
      obtain ⟨x, y, _, _, _, _, standsX, _, ⟨rfl, rfl⟩, value⟩ := standsRight.of_logical nodeRight
      rw [standsLeft.fragment_eq spells]
      refine .of_phrase left standsLeft.neat single rfl rfl (by omega) fun bindings _ => ?_
      rw [value, ← standsLeft.value_eq_of_sameExpr spells standsX same,
        LogicalOp.outcome_absorb isDual]
    · exact shortens_none
  · exact shortens_none

theorem joined_eq {φ ψ : Phrase} {offset place count count' : Nat}
    (standsφ : φ.Stands airy row offset) (standsψ : ψ.Stands airy row place) (gap : List Char) :
    program.joined op (φ.node count offset) (ψ.node count' place) =
      .ok (String.ofList (join op gap φ ψ).text) := by
  rw [Program.joined, standsφ.operand_eq spells _ _ _ gap,
    standsψ.operand_eq spells _ _ _ blank, ofList_text_join]
  rfl

theorem shortens_distribution (standsLeft : left.Stands airy row place₁)
    (standsRight : right.Stands airy row place₂) :
    Shortens airy
      (program.distribution? op (left.node count₁ place₁) (right.node count₂ place₂))
        (2 * left.weight + right.weight + 1)
          fun bindings => op.outcome (left.value bindings) (right.value bindings) := by
  unfold Program.distribution?
  split
  · next m₁ inner x a m₂ other y b nodeLeft nodeRight =>
    split
    · next conditions =>
      simp only [Bool.and_eq_true, decide_eq_true_eq] at conditions
      obtain ⟨⟨rfl, _⟩, same⟩ := conditions
      obtain ⟨X, A, _, _, _, _, standsX, standsA, ⟨rfl, rfl⟩, valueLeft⟩ :=
        standsLeft.of_logical nodeLeft
      obtain ⟨Y, B, _, _, _, _, standsY, standsB, ⟨rfl, rfl⟩, valueRight⟩ :=
        standsRight.of_logical nodeRight
      rw [joined_eq spells standsA standsB [], standsX.operand_eq spells _ _ _ []]
      refine .of_phrase (.connect inner (X.operand inner.precedence false [])
        ((join op [] A B).wrap blank)) ?_ (one_le_rank_connect ..) ?_ rfl ?_
        fun bindings _ => ?_
      · exact neat_connect (standsX.neat.operand .nil) power_lt_hold_operand
          ((neat_join .nil standsA.neat standsB.neat).wrap gap_blank)
          (Nat.le_trans (Nat.add_le_add_right (rightLeast_le_thirteen _) 2) (by simp [wrap]))
      · rw [ofList_text_connect rfl, ofList_text_wrap]
        apply String.ext
        simp
      · have := Y.one_le_weight
        rw [weight_of_logical nodeLeft, weight_of_logical nodeRight,
          weight_connect, weight_operand, weight_wrap, weight_join]
        omega
      · rw [value_connect, value_operand, value_wrap, value_join,
          valueLeft, valueRight, ← standsX.value_eq_of_sameExpr spells standsY same,
          LogicalOp.outcome_distribute]
    · exact shortens_none
  · exact shortens_none

omit spells in
/-- The alternative that folded conditionals share has an absent value. -/
theorem value_of_isNullish {φ : Phrase} {count offset : Nat}
    (nullish : (φ.node count offset).isNullish = true) {bindings : Bindings}
    (unbound : bindings "undefined" = none) :
    ∃ v, φ.value bindings = some v ∧ v.isNullish = true := by
  rw [← eval_node bindings φ count offset]
  unfold Expr.isNullish at nullish
  split at nullish
  · next node => exact ⟨.null, by rw [node]; rfl, rfl⟩
  · next name node =>
    obtain rfl : name = "undefined" := of_decide_eq_true nullish
    refine ⟨.undefined, ?_, rfl⟩
    rw [node, Expr.eval, Expr.evalName, unbound]
    rfl
  · cases nullish

/-- The value of the negation of a phrase. -/
theorem value_of_negates {φ ψ : Phrase} {offset place count count' : Nat}
    (standsφ : φ.Stands airy row offset) (standsψ : ψ.Stands airy row place)
    (negates : program.negates (φ.node count offset) (ψ.node count' place) = true)
    (bindings : Bindings) : φ.value bindings = Value.opposite (ψ.value bindings) := by
  unfold Program.negates at negates
  split at negates
  · next m argument node =>
    obtain ⟨χ, _, standsχ, rfl, value⟩ := standsφ.of_not node
    rw [value, standsχ.value_eq_of_sameExpr spells standsψ negates]
    rfl
  · cases negates

end Laws

/-! ## Folding conditionals -/

section Folds

variable {row : List Piece} {program : Program} {op : LogicalOp} {airy : Prop}
  {test₁ value₁ test₂ value₂ fallback : Phrase} {o₁ o₂ o₃ o₄ o₅ c₁ c₂ c₃ c₄ c₅ : Nat}

/-- The value of two conditionals under a connective, with the alternative in common. -/
def foldedValue (op : LogicalOp) (test₁ value₁ test₂ value₂ fallback : Phrase)
    (bindings : Bindings) : Option Value :=
  op.outcome
    (Value.pick (test₁.value bindings) (value₁.value bindings) (fallback.value bindings))
    (Value.pick (test₂.value bindings) (value₂.value bindings) (fallback.value bindings))

/-- What two conditionals under a connective weigh at least, with the alternative counted once. -/
def foldedWeight (test₁ value₁ test₂ value₂ fallback : Phrase) : Nat :=
  2 * (test₁.weight + value₁.weight + fallback.weight) + test₂.weight + value₂.weight + 2

variable (spells : program.Spells row)
include spells

/-- Two conditionals are folded into one, whichever way their tests are related. -/
theorem shortens_foldWith (standsTest₁ : test₁.Stands airy row o₁)
    (standsValue₁ : value₁.Stands airy row o₂) (standsTest₂ : test₂.Stands airy row o₃)
    (standsValue₂ : value₂.Stands airy row o₄) (standsFallback : fallback.Stands airy row o₅)
    (single : 1 ≤ fallback.rank) (nullish : (fallback.node c₅ o₅).isNullish = true) :
    Shortens airy
      (program.foldWith op (fallback.node c₅ o₅) (test₁.node c₁ o₁) (value₁.node c₂ o₂)
        (test₂.node c₃ o₃) (value₂.node c₄ o₄))
          (foldedWeight test₁ value₁ test₂ value₂ fallback)
            (foldedValue op test₁ value₁ test₂ value₂ fallback) := by
  have positive := fallback.one_le_weight
  have neat₁ := standsValue₁.neat
  have neat₂ := standsValue₂.neat
  have neatFallback := standsFallback.neat
  unfold Program.foldWith
  split
  · next same =>
    rw [standsTest₁.testOperand_eq spells _ [], joined_eq spells standsValue₁ standsValue₂ [],
      standsFallback.isAt.exprSource_eq spells]
    refine .of_fold (test₁.asTest []) rfl (standsTest₁.neat.asTest .nil) three_le_rank_asTest
      (.join neat₁ neat₂) (.led neatFallback single) ?_ fun bindings _ => ?_
    · simp only [foldedWeight, weight_fold, weight_asTest, weight_wrap, weight_join, weight_led]
      omega
    · rw [value_fold, value_asTest, value_wrap, value_join, value_led, foldedValue,
        ← standsTest₁.value_eq_of_sameExpr spells standsTest₂ same, LogicalOp.outcome_pick_same]
  · split
    · next negates =>
      split
      · next passes =>
        rw [standsTest₁.testOperand_eq spells _ [], joined_eq spells standsValue₁ standsFallback [],
          standsValue₂.branchOperand_eq spells _ blank]
        refine .of_fold (test₁.asTest []) rfl (standsTest₁.neat.asTest .nil) three_le_rank_asTest
          (.join neat₁ neatFallback) (.operand neat₂) ?_ fun bindings unbound => ?_
        · simp only [foldedWeight, weight_fold, weight_asTest, weight_wrap, weight_join,
            weight_operand]
          omega
        · obtain ⟨v, value, absent⟩ := value_of_isNullish nullish unbound
          rw [value_fold, value_asTest, value_wrap, value_join, value_operand, foldedValue,
            value_of_negates spells standsTest₂ standsTest₁ negates, value,
            LogicalOp.outcome_pick_negated absent passes]
      · exact shortens_none
    · split
      · next negates =>
        split
        · next passes =>
          rw [standsTest₂.testOperand_eq spells _ [], joined_eq spells standsValue₁ standsFallback [],
            standsValue₂.branchOperand_eq spells _ blank]
          refine .of_fold (test₂.asTest []) rfl (standsTest₂.neat.asTest .nil) three_le_rank_asTest
            (.operand neat₂) (.join neat₁ neatFallback) ?_ fun bindings unbound => ?_
          · simp only [foldedWeight, weight_fold, weight_asTest, weight_wrap, weight_join,
              weight_operand]
            omega
          · obtain ⟨v, value, absent⟩ := value_of_isNullish nullish unbound
            rw [value_fold, value_asTest, value_wrap, value_join, value_operand, foldedValue,
              value_of_negates spells standsTest₁ standsTest₂ negates, value,
              LogicalOp.outcome_negated_pick absent passes]
        · exact shortens_none
      · split
        · next conditions =>
          simp only [Bool.and_eq_true, decide_eq_true_eq] at conditions
          obtain ⟨rfl, _⟩ := conditions
          -- The second conditional becomes the alternative of the first, whose value is guarded.
          rw [standsTest₁.operand_eq spells _ _ _ [], standsValue₁.operand_eq spells _ _ _ blank,
            standsTest₂.testOperand_eq spells _ blank, standsValue₂.branchOperand_eq spells _ blank,
            standsFallback.isAt.exprSource_eq spells, standsValue₁.branchOperand_eq spells _ blank]
          refine .of_fold (join .and [] test₁ value₁) ?_
            (neat_join .nil standsTest₁.neat neat₁) (show 3 ≤ 5 by decide) (.operand neat₁)
            (.fold (standsTest₂.neat.asTest gap_blank) three_le_rank_asTest gap_asTest
              (.operand neat₂) (.led neatFallback single)) ?_ fun bindings unbound => ?_
          · rw [ofList_text_join]
            apply String.ext
            simp [LogicalOp.precedence, LogicalOp.text]
          · simp only [foldedWeight, weight_fold, weight_asTest, weight_join, weight_operand,
              weight_led]
            omega
          · obtain ⟨v, value, absent⟩ := value_of_isNullish nullish unbound
            rw [value_fold, value_join, value_operand, value_fold, value_asTest, value_operand,
              value_led, foldedValue, value, LogicalOp.outcome_or_pick absent]
        · exact shortens_none

theorem shortens_ternaryFold {left right : Phrase} (standsLeft : left.Stands airy row o₁)
    (standsRight : right.Stands airy row o₂) :
    Shortens airy (program.ternaryFold? op (left.node c₁ o₁) (right.node c₂ o₂))
      (2 * left.weight + right.weight + 1)
        fun bindings => op.outcome (left.value bindings) (right.value bindings) := by
  unfold Program.ternaryFold?
  split
  · next m₁ t₁ v₁ f₁ m₂ t₂ v₂ f₂ nodeLeft nodeRight =>
    split
    · next conditions =>
      simp only [Bool.and_eq_true] at conditions
      obtain ⟨⟨⟨nullish, same⟩, _⟩, _⟩ := conditions
      obtain ⟨test₁, value₁, fallback, _, _, _, _, _, _,
        ⟨standsTest₁, standsValue₁, standsFallback, single⟩, ⟨rfl, rfl, rfl⟩, valueLeft⟩ :=
        standsLeft.of_conditional nodeLeft
      obtain ⟨test₂, value₂, other, _, _, _, _, _, _, ⟨standsTest₂, standsValue₂, standsOther, _⟩,
        ⟨rfl, rfl, rfl⟩, valueRight⟩ := standsRight.of_conditional nodeRight
      have values : (fun bindings => op.outcome (left.value bindings) (right.value bindings)) =
          foldedValue op test₁ value₁ test₂ value₂ fallback := by
        funext bindings
        rw [valueLeft, valueRight, ← standsFallback.value_eq_of_sameExpr spells standsOther same]
        rfl
      have heavy : foldedWeight test₁ value₁ test₂ value₂ fallback ≤
          2 * left.weight + right.weight + 1 := by
        have := other.one_le_weight
        rw [weight_of_conditional nodeLeft, weight_of_conditional nodeRight, foldedWeight]
        omega
      rw [values]
      exact (shortens_foldWith spells standsTest₁ standsValue₁ standsTest₂ standsValue₂ standsFallback
        single nullish).mono heavy
    · exact shortens_none
  · exact shortens_none

/-- **Shortening a logical expression keeps its value and lowers its weight.** -/
theorem shortens_shorten {left right : Phrase} (standsLeft : left.Stands airy row o₁)
    (single : 1 ≤ left.rank) (standsRight : right.Stands airy row o₂) (mark : Mark) :
    Shortens airy
      (program.shorten? (.logical mark op (left.node c₁ o₁) (right.node c₂ o₂)))
        (2 * left.weight + right.weight + 1)
          fun bindings => op.outcome (left.value bindings) (right.value bindings) := by
  simp only [Program.shorten?]
  cases named : Program.tautology? (left.node c₁ o₁) (right.node c₂ o₂) with
  | some shortening => exact shortens_tautology standsLeft shortening named
  | none =>
    exact (shortens_absorption spells standsLeft single standsRight).orElse
      ((shortens_distribution spells standsLeft standsRight).orElse
        (shortens_ternaryFold spells standsLeft standsRight))

/-- **What a phrase is shortened to has the value of the phrase and weighs less.** -/
theorem Stands.shortens {φ : Phrase} {offset : Nat} (stands : φ.Stands airy row offset)
    (outer : Span) (count : Nat) :
    Shortens airy (program.shorten? (φ.enclosed outer count offset)) φ.weight
      fun bindings => φ.value bindings := by
  induction φ generalizing offset with
  | atom word =>
    rcases word.leaf_cases ((atom word).mark count offset) with
      ⟨_, leaf⟩ | ⟨_, leaf⟩ | leaf | leaf <;>
      rw [enclosed, node_atom, leaf] <;> exact shortens_none
  | group left inner right ih =>
    rw [enclosed_group]
    exact ih stands.group
  | linked op left sign right =>
    cases op with
    | binary => exact shortens_none
    | logical op =>
      obtain ⟨_, ⟨_, holds⟩, _⟩ := stands.grouped
      have single : 1 ≤ left.rank := by
        have := power_add_two_le_rank holds
        omega
      exact shortens_shorten spells stands.linked.1 single stands.linked.2 _
  | comma first sign rest =>
    rw [enclosed, node_comma]
    exact shortens_none
  | _ => exact shortens_none

end Folds

end Phrase

end TidyScript
