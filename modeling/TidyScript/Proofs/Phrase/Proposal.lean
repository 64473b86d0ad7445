import TidyScript.Proofs.Edit.Weave
import TidyScript.Proofs.Phrase.Amend
import TidyScript.Proofs.Phrase.Exchange
import TidyScript.Proofs.Phrase.Family
import TidyScript.Proofs.Phrase.Negation

/-!
# Changes inside a sentence

Edits that shorten parts of a sentence or move negations inward, and that lie one behind the other,
turn its phrase into another legible phrase, which weighs less with every edit. An operand that is
changed gets parentheses where the operator above it asks for them. If all edits shorten, the value
stays the same.
-/

namespace TidyScript

open Grammar

/-! ## Edits that change a node -/

namespace Program

variable {program : Program} {e : Expr Mark} {edit : Edit}

/-- The edit puts what the expression can be shortened to in its place. -/
def Proposes (program : Program) (e : Expr Mark) (edit : Edit) : Prop :=
  ∃ shortening, program.shorten? e = .ok (some shortening) ∧
    program.replace e shortening.replacement = .single edit

/-- The edit moves the negation that the expression is inward. -/
def Negates (program : Program) (e : Expr Mark) (edit : Edit) : Prop :=
  ∃ mark argument new, e = .unary mark .not argument ∧ argument.movesInward = true ∧
    program.negation argument = .ok new ∧ program.replace e new = .single edit

/-- The edit shortens the expression or, with `negating` set, moves a negation inward. -/
def Changes (program : Program) (negating : Bool) (e : Expr Mark) (edit : Edit) : Prop :=
  program.Proposes e edit ∨ negating = true ∧ program.Negates e edit

theorem replace_eq_single {new : Fragment} (same : program.replace e new = .single edit) :
    edit = ⟨e.span, if program.replacementNeedsParens e new.precedence then
      "(" ++ new.text ++ ")" else new.text⟩ := by
  simpa [replace, Fix.single] using same.symm

variable {negating : Bool}

theorem Changes.span_eq (changes : program.Changes negating e edit) : edit.span = e.span := by
  rcases changes with ⟨_, _, same⟩ | ⟨_, _, _, _, _, _, _, same⟩ <;> rw [replace_eq_single same]

/-- Only connectives are shortened. -/
theorem Proposes.exists_logical (proposes : program.Proposes e edit) :
    ∃ mark op left right, e = .logical mark op left right := by
  obtain ⟨shortening, shorter, _⟩ := proposes
  unfold shorten? at shorter
  split at shorter
  · exact ⟨_, _, _, _, rfl⟩
  · cases shorter

/-- Only connectives and negations are changed. -/
theorem Changes.exists_node (changes : program.Changes negating e edit) :
    (∃ mark op left right, e = .logical mark op left right) ∨
      ∃ mark argument, e = .unary mark .not argument := by
  rcases changes with proposes | ⟨_, mark, argument, _, same, _⟩
  · exact .inl proposes.exists_logical
  · exact .inr ⟨mark, argument, same⟩

end Program

namespace Phrase

variable {φ inner rest : Phrase} {left right sign : Piece}

/-- The characters of a phrase, the gap in front included. -/
def chars (φ : Phrase) : List Char :=
  φ.pieces.flatMap Piece.chars

theorem chars_group : (group left inner right).chars = left.chars ++ (inner.chars ++ right.chars) := by
  simp [chars, pieces]

theorem chars_linked (op : Infix) (left right : Phrase) :
    (linked op left sign right).chars = left.chars ++ (sign.chars ++ right.chars) := by
  simp [chars, pieces]

theorem chars_choice (test : Phrase) (mark : Piece) (yes : Phrase) (colon : Piece) (no : Phrase) :
    (choice test mark yes colon no).chars =
      test.chars ++ (mark.chars ++ (yes.chars ++ (colon.chars ++ no.chars))) := by
  simp [chars, pieces]

theorem chars_comma (first : Phrase) :
    (comma first sign rest).chars = first.chars ++ (sign.chars ++ rest.chars) := by
  simp [chars, pieces]

/-- The phrase in another place, in new parentheses if it needs them there. -/
def placed (parens : Bool) (gap : List Char) (ψ : Phrase) : Phrase :=
  if parens then ψ.wrap gap else ψ.led gap

section Placed

variable {ψ : Phrase} (parens : Bool) {gap : List Char}

theorem gap_placed (gap : List Char) (ψ : Phrase) : (ψ.placed parens gap).first.gap = gap := by
  cases parens with
  | true => rfl
  | false =>
    show (ψ.led gap).first.gap = gap
    rw [first_led]
    rfl

theorem Neat.placed {airy : Prop} {b : Bool} (neat : ψ.Neat airy) (isGap : Token.Gap b gap) :
    (ψ.placed parens gap).Neat airy := by
  cases parens with
  | true => exact neat.wrap isGap
  | false => exact neat.led isGap

theorem weight_placed : (ψ.placed parens gap).weight = ψ.weight := by
  cases parens with
  | true => exact weight_wrap
  | false => exact weight_led gap ψ

theorem value_placed (bindings : Bindings) :
    (ψ.placed parens gap).value bindings = ψ.value bindings := by
  cases parens with
  | true => exact value_wrap bindings
  | false => exact value_led gap bindings ψ

theorem rank_placed_false : (ψ.placed false gap).rank = ψ.rank :=
  rank_led gap ψ

theorem one_le_rank_placed (single : 1 ≤ ψ.rank) : 1 ≤ (ψ.placed parens gap).rank := by
  cases parens with
  | true => exact one_le_rank_wrap ψ gap
  | false => rwa [rank_placed_false]

end Placed

end Phrase

namespace Sentence

section Amending

variable {s : Sentence} {program : Program} {offset count : Nat} {outer : Span} {negating : Bool}

/-- What the program says of the parentheses around a node, in terms of the node above it. -/
theorem IsRead.replacementNeedsParens_eq (isRead : s.IsRead program) {e child : Expr Mark}
    (mem : e ∈ s.phrase.nodes 0 0) (isChild : Node.expr child ∈ e.children)
    (bare : child.isParenthesized = false) (strength : Precedence) :
    program.replacementNeedsParens child strength = e.childNeedsParens child.index strength := by
  rw [Program.replacementNeedsParens, bare, isRead.parent?_eq mem isChild]
  rfl

section Parentheses

variable (isRead : s.IsRead program) {op : Infix} {left right test yes no operand : Phrase}
  {sign mark colon : Piece} (strength : Precedence)
include isRead

section Linked

variable (here : (Phrase.linked op left sign right).enclosed outer count offset ∈ s.phrase.nodes 0 0)
include here

theorem needsParens_linked {child : Expr Mark} (bare : child.isParenthesized = false) (isChild :
      .expr child ∈ ((Phrase.linked op left sign right).enclosed outer count offset).children) :
    program.replacementNeedsParens child strength = strength.needsParens op.precedence
      (decide (count + (left.inside + 1) + right.inside = child.index) !=
        decide (op = .binary .power)) := by
  rw [isRead.replacementNeedsParens_eq here isChild bare,
    ← Phrase.index_node _ (offset + left.bytes + sign.bytes)]
  cases op with
  | logical op => exact congrArg (strength.needsParens op.precedence) (Bool.bne_false _).symm
  | binary op => cases op <;> rfl

theorem needsParens_left (bare : left.isGroup = false) :
    program.replacementNeedsParens (left.node count offset) strength =
      strength.needsParens op.precedence (op = .binary .power) := by
  rw [needsParens_linked isRead strength here (Phrase.isParenthesized_of_not_isGroup bare) (by
    cases op <;> exact .head _), Phrase.index_node, decide_eq_false (by omega), Bool.false_bne]

theorem needsParens_right (bare : right.isGroup = false) :
    program.replacementNeedsParens
        (right.node (count + (left.inside + 1)) (offset + left.bytes + sign.bytes)) strength =
      strength.needsParens op.precedence (op ≠ .binary .power) := by
  rw [needsParens_linked isRead strength here (Phrase.isParenthesized_of_not_isGroup bare) (by
    cases op <;> exact .tail _ (.head _)), Phrase.index_node, decide_eq_true rfl, Bool.true_bne,
    decide_not]

end Linked

theorem needsParens_operand {op : UnaryOp} (here : (Phrase.signed sign op operand).enclosed outer count
      offset ∈ s.phrase.nodes 0 0) (bare : operand.isGroup = false) :
    program.replacementNeedsParens (operand.node count (offset + sign.bytes)) strength =
      decide (strength < .unary) :=
  isRead.replacementNeedsParens_eq here (.head _) (Phrase.isParenthesized_of_not_isGroup bare) strength

theorem needsParens_test (here : (Phrase.choice test mark yes colon no).enclosed outer count
      offset ∈ s.phrase.nodes 0 0) (bare : test.isGroup = false) :
    program.replacementNeedsParens (test.node count offset) strength =
      decide (strength ≤ .conditional) := by
  exact (isRead.replacementNeedsParens_eq here (.head _)
    (Phrase.isParenthesized_of_not_isGroup bare) strength).trans (if_pos rfl)

end Parentheses

/-- What a part is shortened to has the value of the part and weighs less. -/
theorem Part.shortens (sound : s.Sound) (isRead : s.IsRead program) {φ : Phrase}
    (part : s.Part φ offset) (outer : Span) (count : Nat) :
    Shortens s.phrase.Airy (program.shorten? (φ.enclosed outer count offset)) φ.weight
      fun bindings => φ.value bindings :=
  (part.stands sound).shortens (isRead.spells sound) outer count

/-- The edits turn the phrase with the node `e` into one that can be put in its place. -/
structure Turns (s : Sentence) (program : Program) (negating : Bool) (e : Expr Mark)
    (count offset : Nat) (edits : List Edit) (φ ψ : Phrase) : Prop where
  amended : φ.Amended s.phrase.Airy negating edits.length ψ
  suits : φ.Suits (program.replacementNeedsParens e) ψ
  woven : Woven offset φ.chars edits ψ.chars
  edited : ∀ count' offset', Expr.EditedAll edits (φ.items count offset) (ψ.items count' offset')

/-- An edit of a whole phrase puts another one in its place. -/
theorem exists_placed {φ ψ : Phrase} {airy : Prop} {b : Bool} (bare : φ.isGroup = false)
    (some : 1 ≤ φ.rank) (isGap : Token.Gap b φ.first.gap) (neat : ψ.Neat airy)
    (single : 1 ≤ ψ.rank) {edit : Edit}
    (isEdit : edit = ⟨(φ.enclosed outer count offset).span,
      if program.replacementNeedsParens (φ.enclosed outer count offset) ψ.strength then
        "(" ++ String.ofList ψ.text ++ ")" else String.ofList ψ.text⟩) :
    ∃ parens, φ.Suits (program.replacementNeedsParens (φ.enclosed outer count offset))
        (ψ.placed parens φ.first.gap) ∧
      Woven offset φ.chars [edit] (ψ.placed parens φ.first.gap).chars ∧
        ∀ count' offset', Expr.EditedAll [edit] (φ.items count offset)
          ((ψ.placed parens φ.first.gap).items count' offset') := by
  obtain ⟨parens, suits, written⟩ : ∃ parens,
      φ.Suits (program.replacementNeedsParens (φ.enclosed outer count offset))
          (ψ.placed parens φ.first.gap) ∧
        edit.replacement = String.ofList (ψ.placed parens φ.first.gap).text := by
    cases needs : program.replacementNeedsParens (φ.enclosed outer count offset) ψ.strength with
    | true =>
      refine ⟨true, .inr (.inl rfl), ?_⟩
      rw [isEdit, if_pos needs]
      exact Phrase.ofList_text_wrap.symm
    | false =>
      refine ⟨false, .inr (.inr ⟨bare, ?_⟩), ?_⟩
      · show program.replacementNeedsParens _ (ψ.led φ.first.gap).strength = false
        rwa [Phrase.strength_led]
      · rw [isEdit, if_neg (by simp [needs])]
        exact congrArg String.ofList (Phrase.text_led _ _).symm
  have place : edit.span = (φ.node count offset).span := by rw [isEdit, Phrase.span_enclosed]
  refine ⟨parens, suits, ?_, Phrase.editedAll_of_written some place
    (neat.placed parens isGap).legible (Phrase.one_le_rank_placed parens single) written⟩
  have walk := Woven.single offset φ.first.gap φ.text (ψ.placed parens φ.first.gap).text
  have same := (ψ.placed parens φ.first.gap).flatMap_chars
  rw [Phrase.gap_placed] at same
  rw [Phrase.span_node_of_not_isGroup bare, Phrase.span, Phrase.bytes_eq, ← Nat.add_assoc] at place
  rwa [← written, ← place, ← Phrase.flatMap_chars, ← same] at walk

/-- A connective that is shortened as a whole. -/
theorem Part.exists_shortened (sound : s.Sound) (isRead : s.IsRead program) {φ : Phrase}
    (part : s.Part φ offset) (bare : φ.isGroup = false) (some : 1 ≤ φ.rank) (low : φ.rank ≤ 5)
    {edit : Edit} (proposes : program.Proposes (φ.enclosed outer count offset) edit) :
    ∃ ψ, s.Turns program negating (φ.enclosed outer count offset) count offset [edit] φ ψ := by
  obtain ⟨shortening, shorter, same⟩ := proposes
  obtain ⟨result, found, keeps⟩ := part.shortens sound isRead outer count
  rw [found] at shorter
  cases shorter
  obtain ⟨ψ, ⟨neat, single⟩, replacement, light, value⟩ := keeps shortening rfl
  have isEdit := Program.replace_eq_single same
  rw [replacement] at isEdit
  have isGap := (part.legible sound).whole_first.gap
  obtain ⟨parens, suits, woven, edited⟩ := exists_placed bare some isGap neat single isEdit
  refine ⟨_, ⟨neat.placed parens isGap, Phrase.gap_placed .., fun _ =>
    Phrase.one_le_rank_placed parens single, ?_, ?_, fun high => absurd high (Nat.not_lt.2 low),
    fun high => absurd high (Nat.not_lt.2 low)⟩, suits, woven, edited⟩
  · rw [Phrase.weight_placed, List.length_singleton]
    omega
  · intro _ bindings unbound
    rw [Phrase.value_placed, value bindings unbound]

/-- The sign of a negation is an exclamation mark. -/
theorem isPunct_of_signOp?_not {p : Piece} (whole : p.Whole) (sign : p.signOp? = some .not) :
    p.isPunct "!" = true := by
  have text := Piece.text_eq_of_signOp? sign
  have kind : p.kind = .punctuator := by
    obtain ⟨_, lexes⟩ := whole.lexes
    unfold Piece.signOp? Token.signOp? at sign
    split at sign
    · next kind => exact kind
    · next kind =>
      obtain ⟨c, tail, letters, starts, _⟩ := lexes.word (.inr kind)
      rw [text] at letters
      obtain ⟨rfl, _⟩ := List.cons.inj letters
      exact absurd starts (by decide +kernel)
    · cases sign
  simp [Piece.isPunct, Token.isPunct, Piece.token, kind, text, UnaryOp.text]

/-- A negation moves into an operand in parentheses only. -/
theorem isPunct_last_of_movesInward {φ : Phrase} (grouped : φ.Grouped) (tight : 15 ≤ φ.rank)
    (moves : (φ.node count offset).movesInward = true) : φ.last.isPunct ")" = true := by
  cases φ with
  | atom word =>
    rw [Phrase.node_atom] at moves
    rcases word.leaf_cases ((Phrase.atom word).mark count offset) with
      ⟨_, leaf⟩ | ⟨_, leaf⟩ | leaf | leaf <;> rw [leaf] at moves <;> cases moves
  | group left inner right => exact grouped.2.2
  | signed => cases moves
  | linked op left sign right =>
    have := Phrase.power_le op
    rw [Phrase.rank_linked] at tight
    omega
  | choice => cases moves
  | comma => simp at tight

/-- A negation that moves inward as a whole. -/
theorem Part.exists_negated (sound : s.Sound) (isRead : s.IsRead program) {operand : Phrase}
    {sign : Piece} {op : UnaryOp} (part : s.Part (.signed sign op operand) offset) {edit : Edit}
    (negates : program.Negates ((Phrase.signed sign op operand).enclosed outer count offset) edit) :
    ∃ ψ, s.Turns program true ((Phrase.signed sign op operand).enclosed outer count offset) count
      offset [edit] (.signed sign op operand) ψ := by
  obtain ⟨mark, argument, new, node, moves, made, same⟩ := negates
  obtain ⟨_, rfl, rfl⟩ := Expr.unary.inj node
  obtain ⟨⟨isSign, _⟩, grouped, tight⟩ := part.grouped
  have partOperand : s.Part operand (offset + sign.bytes) := ⟨part.holds.signed, grouped⟩
  have negated := partOperand.negated sound isRead (operand.span (offset + sign.bytes)) count
  rw [Phrase.enclosed_span] at negated
  obtain ⟨ψ, written, ⟨neat, single⟩, _, inward⟩ := negated
  obtain ⟨light, shape⟩ := inward moves
  have isEdit := Program.replace_eq_single same
  obtain rfl : new = ⟨String.ofList ψ.text, ψ.strength⟩ :=
    Except.ok.inj (made.symm.trans written)
  have whole := (part.legible sound).whole_first
  obtain ⟨parens, suits, woven, edited⟩ :=
    exists_placed rfl (Nat.le_of_ble_eq_true rfl) whole.gap neat single isEdit
  have isNot : sign.isPunct "!" = true := isPunct_of_signOp?_not whole isSign
  have closed : operand.last.isPunct ")" = true := isPunct_last_of_movesInward grouped tight moves
  have alike : (Piece.sign [] ")").Alike operand.last := by
    obtain ⟨kind, text⟩ := Piece.text_eq_of_isPunct closed
    exact ⟨kind.symm, text.symm⟩
  refine ⟨_, ⟨neat.placed parens whole.gap, Phrase.gap_placed .., fun _ =>
    Phrase.one_le_rank_placed parens single, ?_, nofun, fun _ => ?_, fun _ => ?_⟩, suits, woven, edited⟩
  · have doubled : (Phrase.signed sign .not operand).weight = 2 * operand.weight := rfl
    rw [Phrase.weight_placed, List.length_singleton]
    omega
  · cases parens with
    | true => exact .inr (.inl ⟨isNot, rfl⟩)
    | false =>
      rcases shape with loose | ⟨χ, rfl⟩
      · exact .inr (.inr (by rwa [Phrase.rank_placed_false]))
      · exact .inr (.inl ⟨isNot, rfl⟩)
  · cases parens with
    | true => exact .inl alike
    | false =>
      rcases shape with loose | ⟨χ, rfl⟩
      · exact .inr (.inr ⟨by rwa [Phrase.rank_placed_false],
          closed, rfl⟩)
      · exact .inl alike

/-- The edits change nodes among the given ones. -/
def ChangedBy (program : Program) (negating : Bool) (nodes : List (Expr Mark))
    (edits : List Edit) : Prop :=
  ∀ edit ∈ edits, ∃ e ∈ nodes, program.Changes negating e edit

/-- Edits for the nodes of two phrases, one behind the other. -/
theorem exists_split_changed {edits : List Edit} {first second : List (Expr Mark)} {seam : Nat}
    (ordered : edits.Pairwise fun a b => a.span.stop ≤ b.span.start)
    (changed : ChangedBy program negating (first ++ second) edits)
    (before : ∀ e ∈ first, e.span.start < e.span.stop ∧ e.span.stop ≤ seam)
    (behind : ∀ e ∈ second, seam ≤ e.span.start ∧ e.span.start < e.span.stop) :
    ∃ edits₁ edits₂, edits = edits₁ ++ edits₂ ∧ ChangedBy program negating first edits₁ ∧
      ChangedBy program negating second edits₂ := by
  refine exists_split_edits ordered (fun edit mem => ?_) fun a b => ?_
  · obtain ⟨e, among, changes⟩ := changed edit mem
    rcases List.mem_append.1 among with among | among
    · exact .inl ⟨e, among, changes⟩
    · exact .inr ⟨e, among, changes⟩
  · rintro ⟨e, among, changes⟩ ⟨e', among', changes'⟩
    have := before e among
    have := behind e' among'
    rw [changes.span_eq, changes'.span_eq]
    omega

/-- An edit of a whole phrase leaves no room for others. -/
theorem Part.eq_singleton (sound : s.Sound) {φ : Phrase} (part : s.Part φ offset)
    (bare : φ.isGroup = false) {edits : List Edit}
    (ordered : edits.Pairwise fun a b => a.span.stop ≤ b.span.start)
    (changed : ChangedBy program negating
      ((φ.node count offset).descendants ++ [φ.enclosed outer count offset]) edits)
    {edit : Edit} (mem : edit ∈ edits)
    (changes : program.Changes negating (φ.enclosed outer count offset) edit) : edits = [edit] := by
  have span : edit.span = φ.span offset := by
    rw [changes.span_eq, Phrase.span_enclosed, Phrase.span_node_of_not_isGroup bare]
  refine eq_singleton_of_spans ordered mem fun other here => ?_
  obtain ⟨e, among, changes⟩ := changed other here
  rw [span, changes.span_eq]
  rcases List.mem_append.1 among with among | same
  · exact part.span_bounds sound (List.mem_append_left _ among)
  · obtain rfl := List.mem_singleton.1 same
    rw [Phrase.span_enclosed]
    exact part.span_bounds sound (List.mem_append_right _ (List.mem_singleton_self _))

theorem ChangedBy.left {nodes : List (Expr Mark)} {e : Expr Mark} {edits : List Edit}
    (changed : ChangedBy program negating (nodes ++ [e]) edits)
    (silent : ∀ edit ∈ edits, ¬ program.Changes negating e edit) :
    ChangedBy program negating nodes edits := by
  intro edit mem
  obtain ⟨e', among, changes⟩ := changed edit mem
  rcases List.mem_append.1 among with among | same
  · exact ⟨e', among, changes⟩
  · obtain rfl := List.mem_singleton.1 same
    exact absurd changes (silent edit mem)

theorem ChangedBy.left_of_other {nodes : List (Expr Mark)} {e : Expr Mark} {edits : List Edit}
    (changed : ChangedBy program negating (nodes ++ [e]) edits)
    (noLogical : ∀ mark op left right, e ≠ .logical mark op left right)
    (noNot : ∀ mark argument, e ≠ .unary mark .not argument) :
    ChangedBy program negating nodes edits := by
  refine changed.left fun edit _ changes => ?_
  rcases changes.exists_node with ⟨mark, op, left, right, same⟩ | ⟨mark, argument, same⟩
  · exact noLogical mark op left right same
  · exact noNot mark argument same

end Amending

/-- Wherever the phrase stands in the sentence, edits that change its nodes turn it into another
phrase that can be put in its place. -/
def Amendable (s : Sentence) (program : Program) (negating : Bool) (φ : Phrase) : Prop :=
  ∀ ⦃offset count : Nat⦄ ⦃outer : Span⦄ ⦃edits : List Edit⦄, s.Part φ offset →
    (∀ e ∈ (φ.node count offset).descendants, e ∈ s.phrase.nodes 0 0) →
      (φ.isRow = false → φ.enclosed outer count offset ∈ s.phrase.nodes 0 0) →
        (edits.Pairwise fun a b => a.span.stop ≤ b.span.start) →
          ChangedBy program negating
            ((φ.node count offset).descendants ++ [φ.enclosed outer count offset]) edits →
            ∃ ψ, s.Turns program negating (φ.enclosed outer count offset) count offset edits φ ψ

namespace Amendable

variable {s : Sentence} {program : Program} {negating : Bool}

/-- The case of a part with no parentheses around it. -/
theorem at_node {φ : Phrase} (amendable : s.Amendable program negating φ) {offset count : Nat}
    {edits : List Edit} (part : s.Part φ offset)
    (known : ∀ e ∈ φ.nodes count offset, e ∈ s.phrase.nodes 0 0)
    (ordered : edits.Pairwise fun a b => a.span.stop ≤ b.span.start)
    (changed : ChangedBy program negating (φ.nodes count offset) edits) :
    ∃ ψ, s.Turns program negating (φ.node count offset) count offset edits φ ψ := by
  have whole := @amendable offset count (φ.span offset) edits part
  rw [Phrase.enclosed_span] at whole
  exact whole (fun e mem => known e (List.mem_append_left _ mem))
    (fun _ => known _ (List.mem_append_right _ (List.mem_singleton_self _))) ordered changed

variable (sound : s.Sound) (isRead : s.IsRead program) (free : negating = true → s.phrase.Airy)
include sound

theorem atom (word : Piece) : s.Amendable program negating (.atom word) := by
  intro offset count outer edits part _ _ _ changed
  have none : edits = [] := by
    refine List.eq_nil_iff_forall_not_mem.2 fun edit mem => ?_
    obtain ⟨e, among, changes⟩ := changed edit mem
    rw [Phrase.enclosed, Phrase.node_atom, Piece.descendants_leaf] at among
    obtain rfl := List.mem_singleton.1 among
    rcases changes.exists_node with ⟨_, _, _, _, same⟩ | ⟨_, _, same⟩ <;>
    rcases word.leaf_cases ((Phrase.atom word).mark count offset) with
      ⟨_, leaf⟩ | ⟨_, leaf⟩ | leaf | leaf <;> rw [leaf] at same <;> cases same
  subst none
  exact ⟨_, .refl (part.neat sound), .inl ⟨rfl, rfl⟩, .done _ _, fun _ _ =>
    (Expr.Edited.kept (Piece.sameForm_leaf part.grouped _ _)).single⟩

theorem group {left right : Piece} {inner : Phrase} (amendable : s.Amendable program negating inner) :
    s.Amendable program negating (.group left inner right) := by
  intro offset count outer edits part below here ordered changed
  rw [Phrase.descendants_group] at below changed
  rw [Phrase.enclosed_group] at here changed
  obtain ⟨ψ, amended, _, woven, edited⟩ := amendable ⟨part.holds.group, part.grouped.2.1⟩ below
    (fun _ => here rfl) ordered changed
  refine ⟨.group left ψ right, amended.group (part.legible sound), .inl ⟨rfl, rfl⟩, ?_, fun _ _ =>
    Expr.Edited.single (.withMark ((edited _ _).joinRow _ _) (by rfl) _)⟩
  rw [Phrase.chars_group, Phrase.chars_group]
  exact (woven.before right.chars).behind left.chars

include isRead

theorem signed {sign : Piece} {op : UnaryOp} {operand : Phrase}
    (amendable : s.Amendable program negating operand) :
    s.Amendable program negating (.signed sign op operand) := by
  intro offset count outer edits part below here ordered changed
  have partOperand : s.Part operand (offset + sign.bytes) := ⟨part.holds.signed, part.grouped.2.1⟩
  by_cases own : ∃ edit ∈ edits, program.Changes negating
      ((Phrase.signed sign op operand).enclosed outer count offset) edit
  · obtain ⟨edit, mem, changes⟩ := own
    obtain rfl := part.eq_singleton sound rfl ordered changed mem changes
    rcases changes with proposes | ⟨rfl, negates⟩
    · obtain ⟨_, _, _, _, same⟩ := proposes.exists_logical
      cases same
    · exact part.exists_negated sound isRead negates
  have changed := changed.left fun edit mem changes => own ⟨edit, mem, changes⟩
  rw [Phrase.descendants_signed] at below changed
  obtain ⟨ψ, amended, suits, woven, edited⟩ := amendable.at_node partOperand below ordered changed
  have tight : 15 ≤ ψ.rank := suits.le_rank part.grouped.2.2 (by decide) fun bare strength free => by
    rw [needsParens_operand isRead strength (here rfl) bare, decide_eq_false_iff_not] at free
    exact Nat.le_of_not_lt free
  refine ⟨.signed sign op ψ, amended.signed (part.legible sound) (partOperand.legible sound) tight,
    .inl ⟨rfl, rfl⟩, woven.behind sign.chars, fun _ _ => ?_⟩
  exact (Expr.Edited.unary _ _ op ((edited _ _).joinRow _ _)).single

theorem choice {test yes no : Phrase} {mark colon : Piece}
    (amendableTest : s.Amendable program negating test)
    (amendableYes : s.Amendable program negating yes) (amendableNo : s.Amendable program negating no) :
    s.Amendable program negating (.choice test mark yes colon no) := by
  intro offset count outer edits part below here ordered changed
  have legible := part.legible sound
  obtain ⟨_, ⟨groupedTest, tight⟩, ⟨groupedYes, _⟩, groupedNo, _⟩ := part.grouped
  obtain ⟨holdsTest, holdsYes, holdsNo⟩ := part.holds.choice
  have partTest : s.Part test offset := ⟨holdsTest, groupedTest⟩
  have partYes : s.Part yes (offset + test.bytes + mark.bytes) := ⟨holdsYes, groupedYes⟩
  have partNo : s.Part no (offset + test.bytes + mark.bytes + yes.bytes + colon.bytes) :=
    ⟨holdsNo, groupedNo⟩
  have changed := changed.left_of_other (fun _ _ _ _ same => by cases same) fun _ _ same => by cases same
  rw [Phrase.descendants_choice] at below changed
  obtain ⟨edits₁, others, rfl, changed₁, changed⟩ :=
    @exists_split_changed _ _ _ _ _ (offset + test.bytes) ordered changed
      (fun _ mem => (partTest.span_bounds sound mem).2) fun e mem => by
        rcases List.mem_append.1 mem with mem | mem
        · have := partYes.span_bounds sound mem
          omega
        · have := partNo.span_bounds sound mem
          omega
  rw [List.pairwise_append] at ordered
  obtain ⟨edits₂, edits₃, rfl, changed₂, changed₃⟩ :=
    @exists_split_changed _ _ _ _ _ (offset + test.bytes + mark.bytes + yes.bytes) ordered.2.1 changed
      (fun _ mem => (partYes.span_bounds sound mem).2) fun e mem => by
        have := partNo.span_bounds sound mem
        omega
  have inner := List.pairwise_append.1 ordered.2.1
  obtain ⟨test', amendedTest, suits, wovenTest, editedTest⟩ := amendableTest.at_node partTest
    (fun e mem => below e (by simp [mem])) ordered.1 changed₁
  obtain ⟨yes', amendedYes, _, wovenYes, editedYes⟩ := amendableYes.at_node partYes
    (fun e mem => below e (by simp [mem])) inner.1 changed₂
  obtain ⟨no', amendedNo, _, wovenNo, editedNo⟩ := amendableNo.at_node partNo
    (fun e mem => below e (by simp [mem])) inner.2.1 changed₃
  have tight' : 3 ≤ test'.rank := suits.le_rank tight (by decide) fun bare strength free => by
    rw [needsParens_test isRead strength (here rfl) bare, decide_eq_false_iff_not] at free
    exact Nat.lt_of_not_le free
  refine ⟨.choice test' mark yes' colon no', ?_, .inl ⟨rfl, rfl⟩, ?_, fun _ _ => ?_⟩
  · rw [List.length_append, List.length_append]
    exact .choice legible amendedTest tight' amendedYes amendedNo
  · rw [Phrase.chars_choice, Phrase.chars_choice]
    exact wovenTest.append ((wovenYes.append (wovenNo.behind colon.chars)).behind mark.chars)
  · exact (Expr.Edited.conditional _ _ (.cons ((editedTest _ _).joinRow _ _)
      (.cons ((editedYes _ _).joinRow _ _) ((editedNo _ _).joinRow _ _).single))).single

omit isRead in
theorem comma {first rest : Phrase} {sign : Piece} (amendableFirst : s.Amendable program negating first)
    (amendableRest : s.Amendable program negating rest) :
    s.Amendable program negating (.comma first sign rest) := by
  intro offset count outer edits part below _ ordered changed
  obtain ⟨_, ⟨groupedFirst, _⟩, groupedRest⟩ := part.grouped
  have partFirst : s.Part first offset := ⟨part.holds.comma.1, groupedFirst⟩
  have partRest : s.Part rest (offset + first.bytes + sign.bytes) := ⟨part.holds.comma.2, groupedRest⟩
  have changed := changed.left_of_other
    (fun _ _ _ _ same => by rw [Phrase.enclosed, Phrase.node_comma] at same; cases same)
    fun _ _ same => by rw [Phrase.enclosed, Phrase.node_comma] at same; cases same
  rw [Phrase.descendants_comma] at below changed
  obtain ⟨edits₁, edits₂, rfl, changed₁, changed₂⟩ :=
    @exists_split_changed _ _ _ _ _ (offset + first.bytes) ordered changed
      (fun _ mem => (partFirst.span_bounds sound mem).2) fun e mem => by
        have := partRest.span_bounds sound (Phrase.mem_nodes_of_mem_completed _ _ mem)
        omega
  rw [List.pairwise_append] at ordered
  obtain ⟨first', amendedFirst, _, wovenFirst, editedFirst⟩ := amendableFirst.at_node partFirst
    (fun e mem => below e (List.mem_append_left _ mem)) ordered.1 changed₁
  -- a rest with commas of its own is no node, but its items are
  obtain ⟨rest', amendedRest, _, wovenRest, editedRest⟩ := @amendableRest _ (count + (first.inside + 1))
    (rest.span (offset + first.bytes + sign.bytes)) edits₂ partRest
    (fun e mem => below e (List.mem_append_right _ (Phrase.mem_completed_of_mem_descendants _ _ mem)))
    (fun single => by
      rw [Phrase.enclosed_span]
      refine below _ (List.mem_append_right _ ?_)
      rw [Phrase.completed_items_of_not_isRow _ _ single]
      exact List.mem_append_right _ (List.mem_singleton_self _))
    ordered.2.1 (by
      rw [Phrase.enclosed_span]
      intro edit mem
      obtain ⟨e, among, changes⟩ := changed₂ edit mem
      exact ⟨e, Phrase.mem_nodes_of_mem_completed _ _ among, changes⟩)
  refine ⟨.comma first' sign rest', ?_, .inl ⟨rfl, rfl⟩, ?_, fun _ _ =>
    .cons ((editedFirst _ _).joinRow _ _) (editedRest _ _)⟩
  · rw [List.length_append]
    exact .comma (part.legible sound) amendedFirst amendedRest
  · rw [Phrase.chars_comma, Phrase.chars_comma]
    exact wovenFirst.append (wovenRest.behind sign.chars)

include free

theorem linked {op : Infix} {left right : Phrase} {sign : Piece}
    (amendableLeft : s.Amendable program negating left)
    (amendableRight : s.Amendable program negating right) :
    s.Amendable program negating (.linked op left sign right) := by
  intro offset count outer edits part below here ordered changed
  obtain ⟨_, ⟨groupedLeft, holds⟩, groupedRight, tight⟩ := part.grouped
  have partLeft : s.Part left offset := ⟨part.holds.linked.1, groupedLeft⟩
  have partRight : s.Part right (offset + left.bytes + sign.bytes) :=
    ⟨part.holds.linked.2, groupedRight⟩
  by_cases own : ∃ edit ∈ edits, program.Changes negating
      ((Phrase.linked op left sign right).enclosed outer count offset) edit
  · obtain ⟨edit, mem, changes⟩ := own
    obtain rfl := part.eq_singleton sound rfl ordered changed mem changes
    rcases changes with proposes | ⟨_, _, _, _, same, _⟩
    · cases op with
      | binary op =>
        obtain ⟨_, _, _, _, same⟩ := proposes.exists_logical
        cases same
      | logical op =>
        refine part.exists_shortened sound isRead rfl ?_ ?_ proposes <;>
          cases op <;> exact Nat.le_of_ble_eq_true rfl
    · cases op <;> cases same
  have changed := changed.left fun edit mem changes => own ⟨edit, mem, changes⟩
  rw [Phrase.descendants_linked] at below changed
  obtain ⟨edits₁, edits₂, rfl, changed₁, changed₂⟩ :=
    @exists_split_changed _ _ _ _ _ (offset + left.bytes) ordered changed
      (fun _ mem => (partLeft.span_bounds sound mem).2) fun e mem => by
        have := partRight.span_bounds sound mem
        omega
  rw [List.pairwise_append] at ordered
  obtain ⟨left', amendedLeft, suitsLeft, wovenLeft, editedLeft⟩ := amendableLeft.at_node partLeft
    (fun e mem => below e (List.mem_append_left _ mem)) ordered.1 changed₁
  obtain ⟨right', amendedRight, suitsRight, wovenRight, editedRight⟩ := amendableRight.at_node partRight
    (fun e mem => below e (List.mem_append_right _ mem)) ordered.2.1 changed₂
  have holds' := suitsLeft.power_lt_hold holds fun bare strength free => by
    rwa [needsParens_left isRead strength (here rfl) bare] at free
  have tight' := suitsRight.rightLeast_le_rank tight fun bare strength free => by
    rwa [needsParens_right isRead strength (here rfl) bare] at free
  refine ⟨.linked op left' sign right', ?_, .inl ⟨?_, rfl⟩, ?_, fun _ _ => ?_⟩
  · rw [List.length_append]
    exact .linked (part.neat sound) amendedLeft holds' free (partRight.legible sound) amendedRight tight'
  · rw [Phrase.rank_linked, Phrase.rank_linked]
  · rw [Phrase.chars_linked, Phrase.chars_linked]
    exact wovenLeft.append (wovenRight.behind sign.chars)
  · exact (Expr.Edited.linked _ _ op (.cons ((editedLeft _ _).joinRow _ _)
      ((editedRight _ _).joinRow _ _).single)).single

end Amendable

section Amending

variable {s : Sentence} {program : Program} {negating : Bool}

/-- Every phrase can be amended. -/
theorem amendable (sound : s.Sound) (isRead : s.IsRead program)
    (free : negating = true → s.phrase.Airy) (φ : Phrase) : s.Amendable program negating φ := by
  induction φ with
  | atom word => exact .atom sound word
  | group left inner right ih => exact .group sound ih
  | signed sign op operand ih => exact .signed sound isRead ih
  | linked op left sign right ihLeft ihRight => exact .linked sound isRead free ihLeft ihRight
  | choice test mark yes colon no ihTest ihYes ihNo => exact .choice sound isRead ihTest ihYes ihNo
  | comma first sign rest ihFirst ihRest => exact .comma sound ihFirst ihRest

/-- **Edits that change nodes of a sentence, one behind the other, turn its phrase into a legible
one that weighs less with each of them.** Its tree is the old one with the nodes exchanged. -/
theorem exists_amended (sound : s.Sound) (isRead : s.IsRead program)
    (free : negating = true → s.phrase.Airy) {edits : List Edit}
    (ordered : edits.Pairwise fun a b => a.span.stop ≤ b.span.start)
    (changed : ChangedBy program negating (s.phrase.nodes 0 0) edits) :
    ∃ ψ : Phrase, s.phrase.Amended s.phrase.Airy negating edits.length ψ ∧
      Woven 0 s.phrase.chars edits ψ.chars ∧ s.node.Edited edits (ψ.node 0 0) := by
  obtain ⟨ψ, amended, _, woven, edited⟩ := (amendable sound isRead free s.phrase).at_node
    ⟨s.holds_phrase, sound.grouped⟩ (fun _ mem => mem) ordered changed
  exact ⟨ψ, amended, woven, (edited 0 0).joinRow _ _⟩

end Amending

end Sentence

end TidyScript
