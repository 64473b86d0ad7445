import Mathlib.Data.List.Chain
import TidyScript.Proofs.Grammar.Operator

/-!
# Rows in which only operators decide

What a token can be by itself: an operand, an operator in front of one, or a token that can
stand behind one without being a part of it. Three things could divert the grammar from
operators: an arrow further on, the word `function`, and an `await` that finds something to
wait for. A row without these is quiet, and in a quiet row no look ahead finds anything.
-/

namespace TidyScript

open Grammar

namespace Token

/-! ## What a token can be by itself -/

/-- Is the token a name, or a literal that is evaluated? -/
def isOperand (token : Token) : Bool :=
  match token.kind with
  | .identifier => true
  | .number => true
  | .string _ => true
  | .keyword => ["null", "true", "false"].contains token.text
  | _ => false

/-- The operator in front of an operand that a token is, wherever it stands. -/
def signOp? (token : Token) : Option UnaryOp :=
  match token.kind with
  | .punctuator => UnaryOp.ofText? token.text
  | .keyword => UnaryOp.ofText? token.text
  | _ => none

/-- The words and signs that can stand behind an operand, apart from those of members, calls,
updates and assignments. -/
def followers : List String :=
  [")", ",", ":", "?", ";", "&&", "||", "??", "===", "!==", "==", "!=", "<", ">", "<=", ">=",
   "+", "-", "*", "/", "%", "**", "&", "|", "^", "<<", ">>", ">>>", "in", "instanceof"]

/-- Can the token stand behind an operand without being a part of it? -/
def isFollower (token : Token) : Bool :=
  match token.kind with
  | .punctuator => followers.contains token.text
  | .keyword => token.text = "in" || token.text = "instanceof"
  | .eof => true
  | _ => false

/-- Is the token something that an `await` in front of it waits for? -/
def isAwaited (token : Token) : Bool :=
  !token.newlineBefore &&
    match token.kind with
    | .identifier => true
    | .keyword => true
    | .number => true
    | .string _ => true
    | .template => true
    | .regex => true
    | .punctuator => ["[", "!", "~", "\x7b"].contains token.text
    | .eof => false

/-- The first token is no `await` that waits for the second. -/
def Calm (a b : Token) : Prop :=
  a.isIdentifier "await" = true → b.isAwaited = false

/-- The token is no operator of the given power or more. -/
def Loose (least : Nat) (token : Token) : Prop :=
  ∀ op, Infix.ofToken? false token = some op → op.power < least

/-- Is the token neither an arrow nor the word `function`? -/
def isStill (token : Token) : Bool :=
  !token.isPunct "=>" && !token.isKeyword "function"

/-- Nothing in the row diverts the grammar from operators. -/
structure Quiet (stop : Token) (rest : List Token) : Prop where
  ends : stop.kind = .eof
  still : ∀ token ∈ rest, token.isStill = true
  calm : List.IsChain Calm (rest ++ [stop])

theorem Quiet.right {stop : Token} (left : List Token) {right : List Token}
    (quiet : Quiet stop (left ++ right)) : Quiet stop right where
  ends := quiet.ends
  still token mem := quiet.still token (List.mem_append_right left mem)
  calm := (List.append_assoc left right [stop] ▸ quiet.calm).right_of_append

section Followers

variable {token : Token} (follows : token.isFollower = true)
include follows

theorem isPunct_eq_false_of_isFollower {text : String} (other : text ∉ followers) :
    token.isPunct text = false := by
  unfold isFollower at follows
  unfold isPunct
  cases kind : token.kind with
  | punctuator =>
    simp only [kind] at follows
    have mem : token.text ∈ followers := by simpa using follows
    have ne : token.text ≠ text := fun same => other (same ▸ mem)
    simp [ne]
  | _ => simp

theorem isKeyword_eq_false_of_isFollower {text : String} (other : text ∉ followers) :
    token.isKeyword text = false := by
  by_contra isText
  simp only [isKeyword, Bool.not_eq_false, Bool.and_eq_true, decide_eq_true_eq] at isText
  simp only [isFollower, isText, Bool.or_eq_true, decide_eq_true_eq] at follows
  rcases follows with rfl | rfl
  · exact other (by decide)
  · exact other (by decide)

theorem isUpdate_eq_false_of_isFollower : isUpdate token = false := by
  simp only [isUpdate, Bool.or_eq_false_iff]
  exact ⟨isPunct_eq_false_of_isFollower follows (by decide),
    isPunct_eq_false_of_isFollower follows (by decide)⟩

theorem kind_ne_template_of_isFollower : token.kind ≠ .template := by
  intro template
  simp [isFollower, template] at follows

theorem continuesChain_of_isFollower : continuesChain token = false := by
  have none : ∀ text ∈ [".", "?.", "[", "("], token.isPunct text = false := fun text mem =>
    isPunct_eq_false_of_isFollower follows
      ((by decide : ∀ text ∈ [".", "?.", "[", "("], text ∉ followers) text mem)
  simp [continuesChain, none, kind_ne_template_of_isFollower follows]

theorem not_assigns_of_isFollower :
    (token.kind = .punctuator && assignmentOperators.contains token.text) = false := by
  cases kind : token.kind with
  | punctuator =>
    simp only [isFollower, kind, List.contains_iff_mem] at follows
    have none : ∀ text ∈ followers, text ∉ assignmentOperators := by decide
    simpa using none _ follows
  | _ => simp

end Followers

theorem ofToken?_eq_none_of_isPunct {noIn : Bool} {token : Token} {text : String}
    (isText : token.isPunct text = true) (noLogical : LogicalOp.ofText? text = none)
    (noBinary : BinaryOp.ofText? text = none) : Infix.ofToken? noIn token = none := by
  simp only [isPunct, Bool.and_eq_true, decide_eq_true_eq] at isText
  simp [Infix.ofToken?, isText, noLogical, noBinary]

/-- Operators between operands can stand behind an operand. -/
theorem isFollower_of_ofToken? {token : Token} {op : Infix}
    (sign : Infix.ofToken? false token = some op) : token.isFollower = true := by
  unfold Infix.ofToken? at sign
  unfold isFollower
  split at sign
  · next kind =>
    rw [kind]
    split at sign
    · next logical found =>
      have same := List.find?_some found
      rw [← of_decide_eq_true same]
      cases logical <;> decide
    · next missing =>
      obtain ⟨binary, found, _⟩ := Option.map_eq_some_iff.1 sign
      have same := List.find?_some found
      rw [← of_decide_eq_true same]
      cases binary <;> decide
  · next kind =>
    rw [kind]
    split at sign
    · next isText => simp [isText]
    · split at sign
      · next isText => simp_all
      · cases sign
  · cases sign

end Token

namespace Grammar.State

variable {state : State}

theorem awaitsOperand_eq (state : State) : state.awaitsOperand = (state.peek 1).isAwaited := rfl

theorem isStill_peek (quiet : Token.Quiet state.stop state.rest) (count : Nat) :
    (state.peek count).isStill = true := by
  unfold peek
  rw [List.getD_eq_getElem?_getD]
  cases at? : state.rest[count]? with
  | none => simp [Token.isStill, Token.isPunct, Token.isKeyword, quiet.ends]
  | some token => exact quiet.still token (List.mem_of_getElem? at?)

theorem closesIntoArrow_eq_false {stop : Token} {rest : List Token}
    (quiet : Token.Quiet stop rest) (depth : Nat) : closesIntoArrow stop depth rest = false := by
  induction rest generalizing depth with
  | nil => rfl
  | cons token rest ih =>
    have behind : Token.Quiet stop rest := Token.Quiet.right [token] quiet
    have still : (rest.headD stop).isStill = true := by
      cases rest with
      | nil => simp [Token.isStill, Token.isPunct, Token.isKeyword, quiet.ends]
      | cons next rest => exact behind.still next (List.mem_cons_self ..)
    simp only [Token.isStill, Bool.and_eq_true, Bool.not_eq_true'] at still
    simp only [closesIntoArrow, ih behind, still.1]
    simp

theorem arrowAhead_eq_false (quiet : Token.Quiet state.stop state.rest) :
    state.arrowAhead = false := by
  have noArrow : ∀ count, (state.peek count).isPunct "=>" = false := fun count => by
    have still := isStill_peek quiet count
    simp only [Token.isStill, Bool.and_eq_true, Bool.not_eq_true'] at still
    exact still.1
  have closes : ∀ count, closesIntoArrow state.stop 0 (state.rest.drop count) = false :=
    fun count => closesIntoArrow_eq_false
      (Token.Quiet.right (state.rest.take count) (by rwa [List.take_append_drop])) 0
  simp [arrowAhead, noArrow, closes]

theorem asyncFunctionAhead_eq_false (quiet : Token.Quiet state.stop state.rest) :
    state.asyncFunctionAhead = false := by
  have still := isStill_peek quiet 1
  simp only [Token.isStill, Bool.and_eq_true, Bool.not_eq_true'] at still
  simp [asyncFunctionAhead, still.2]

/-- The next token waits for nothing if it is an `await`. -/
theorem calm_current (quiet : Token.Quiet state.stop state.rest) (some : state.rest ≠ []) :
    Token.Calm state.current (state.peek 1) := by
  have calm := quiet.calm
  unfold current peek
  match rest : state.rest with
  | [] => exact absurd rest some
  | [token] =>
    rw [rest] at calm
    exact (List.isChain_cons_cons.1 calm).1
  | token :: other :: others =>
    rw [rest] at calm
    exact (List.isChain_cons_cons.1 calm).1

end Grammar.State

namespace Token

variable {token : Token} {op : UnaryOp}

theorem isPunct_eq_false_of_isOperand (operand : token.isOperand = true) (text : String) :
    token.isPunct text = false := by
  unfold isOperand at operand
  unfold isPunct
  split at operand <;> simp_all

theorem isKeyword_eq_false_of_isPunct {text : String} (isText : token.isPunct text = true)
    (other : String) : token.isKeyword other = false := by
  simp only [isPunct, Bool.and_eq_true, decide_eq_true_eq] at isText
  simp [isKeyword, isText.1]

theorem isPunct_eq_false_of_signOp? (sign : token.signOp? = some op) {text : String}
    (other : UnaryOp.ofText? text = none) : token.isPunct text = false := by
  by_contra isText
  simp only [isPunct, Bool.not_eq_false, Bool.and_eq_true, decide_eq_true_eq] at isText
  simp [signOp?, isText, other] at sign

theorem isKeyword_eq_false_of_signOp? (sign : token.signOp? = some op) {text : String}
    (other : UnaryOp.ofText? text = none) : token.isKeyword text = false := by
  by_contra isText
  simp only [isKeyword, Bool.not_eq_false, Bool.and_eq_true, decide_eq_true_eq] at isText
  simp [signOp?, isText, other] at sign

theorem isUpdate_eq_false_of_isOperand (operand : token.isOperand = true) :
    isUpdate token = false := by
  simp [isUpdate, isPunct_eq_false_of_isOperand operand]

theorem isKeyword_eq_false_of_isOperand (operand : token.isOperand = true) {text : String}
    (other : text ∉ ["null", "true", "false"]) : token.isKeyword text = false := by
  unfold isOperand at operand
  unfold isKeyword
  split at operand
  · simp_all
  · simp_all
  · simp_all
  · have ne : token.text ≠ text := fun same => other (by simpa [← same] using operand)
    simp [ne]
  · cases operand

end Token

theorem Grammar.State.unaryAhead?_eq_some {state : State} {op : UnaryOp}
    (sign : state.current.signOp? = some op) : state.unaryAhead? = some op := by
  unfold Token.signOp? at sign
  unfold State.unaryAhead?
  split at sign
  · next kind => simpa only [kind] using sign
  · next kind => simpa only [kind] using sign
  · cases sign

theorem Grammar.State.unaryAhead?_eq_none {state : State} (operand : state.current.isOperand = true)
    (calm : Token.Calm state.current (state.peek 1)) : state.unaryAhead? = none := by
  unfold Token.isOperand at operand
  unfold State.unaryAhead?
  split at operand
  · next kind =>
    simp only [kind]
    rw [if_neg]
    intro waits
    simp only [Bool.and_eq_true, decide_eq_true_eq] at waits
    have none := calm (by simp [Token.isIdentifier, kind, waits.1])
    rw [← State.awaitsOperand_eq, waits.2] at none
    cases none
  · next kind => simp only [kind]
  · next kind => simp only [kind]
  · next kind =>
    simp only [kind]
    simp only [List.contains_iff_mem, List.mem_cons, List.not_mem_nil, or_false] at operand
    rcases operand with text | text | text <;> rw [text] <;> decide
  · cases operand

end TidyScript
