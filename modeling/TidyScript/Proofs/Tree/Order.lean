import TidyScript.Tree.Judgement

/-!
# Plain expressions and the order of their nodes

An expression is plain when it is built from names, literals that are evaluated, operators
without effects, conditionals and sequences. The nodes of a plain expression are completed
children first and from left to right, the expression itself last.
-/

namespace TidyScript

/-- Is the literal one that is evaluated? -/
def Literal.isPlain : Literal → Bool
  | .regex => false
  | .template => false
  | _ => true

/-- Is the operator evaluated without an effect? -/
def UnaryOp.isPlain (op : UnaryOp) : Bool :=
  op ≠ .delete && op ≠ .await

namespace Expr

variable {α : Type}

mutual

/-- Is the expression built only from names, literals that are evaluated, operators without
effects, conditionals and sequences? The words `super` and `import` are no names. -/
def isPlain : Expr α → Bool
  | identifier _ name => name ≠ "super" && name ≠ "import"
  | literal _ value => value.isPlain
  | unary _ op argument => op.isPlain && isPlain argument
  | binary _ _ left right => isPlain left && isPlain right
  | logical _ _ left right => isPlain left && isPlain right
  | conditional _ test consequent alternate =>
    isPlain test && isPlain consequent && isPlain alternate
  | sequence _ items => arePlain items
  | _ => false

/-- Are all of the expressions plain? -/
def arePlain : List (Expr α) → Bool
  | [] => true
  | item :: items => isPlain item && arePlain items

end

mutual

/-- The nodes below a plain expression in the order of their completion. -/
def descendants : Expr α → List (Expr α)
  | unary _ _ argument => descendants argument ++ [argument]
  | binary _ _ left right => descendants left ++ left :: (descendants right ++ [right])
  | logical _ _ left right => descendants left ++ left :: (descendants right ++ [right])
  | conditional _ test consequent alternate =>
    descendants test ++ test ::
      (descendants consequent ++ consequent :: (descendants alternate ++ [alternate]))
  | sequence _ items => completed items
  | _ => []

/-- The nodes of several expressions in the order of their completion. -/
def completed : List (Expr α) → List (Expr α)
  | [] => []
  | item :: items => descendants item ++ item :: completed items

end

section Below

variable {P : Expr α → Prop}

mutual

/-- What goes over from a node to its children holds of all nodes below it. -/
theorem forall_descendants
    (child : ∀ {e below : Expr α}, P e → .expr below ∈ e.children → P below) :
    (e : Expr α) → P e → ∀ d ∈ e.descendants ++ [e], P d
  | unary mark op argument, holds, d, mem => by
    have inner := forall_descendants child argument (child holds (by simp [children]))
    simp only [descendants, List.mem_append, List.mem_singleton] at mem inner
    rcases mem with below | rfl
    · exact inner d below
    · exact holds
  | binary mark op left right, holds, d, mem => by
    have first := forall_descendants child left (child holds (by simp [children]))
    have second := forall_descendants child right (child holds (by simp [children]))
    simp only [descendants, List.mem_append, List.mem_cons, List.not_mem_nil, or_false]
      at mem first second
    grind
  | logical mark op left right, holds, d, mem => by
    have first := forall_descendants child left (child holds (by simp [children]))
    have second := forall_descendants child right (child holds (by simp [children]))
    simp only [descendants, List.mem_append, List.mem_cons, List.not_mem_nil, or_false]
      at mem first second
    grind
  | conditional mark test yes no, holds, d, mem => by
    have first := forall_descendants child test (child holds (by simp [children]))
    have second := forall_descendants child yes (child holds (by simp [children]))
    have third := forall_descendants child no (child holds (by simp [children]))
    simp only [descendants, List.mem_append, List.mem_cons, List.not_mem_nil, or_false]
      at mem first second third
    grind
  | sequence mark items, holds, d, mem => by
    have inner := forall_completed child items fun item inside =>
      child holds (by simpa [children] using inside)
    simp only [descendants, List.mem_append, List.mem_singleton] at mem
    rcases mem with below | rfl
    · exact inner d below
    · exact holds
  | identifier _ _, holds, d, mem | literal _ _, holds, d, mem | thisRef _, holds, d, mem
  | hidden _, holds, d, mem | update _ _ _ _, holds, d, mem | member _ _ _ _, holds, d, mem
  | call _ _ _ _, holds, d, mem | construct _ _ _, holds, d, mem
  | assignment _ _ _ _, holds, d, mem | array _ _, holds, d, mem | object _ _, holds, d, mem
  | spread _ _, holds, d, mem | function _ _ _ _ _, holds, d, mem =>
    List.mem_singleton.1 mem ▸ holds

theorem forall_completed
    (child : ∀ {e below : Expr α}, P e → .expr below ∈ e.children → P below) :
    (items : List (Expr α)) → (∀ item ∈ items, P item) → ∀ d ∈ completed items, P d
  | [], _, d, mem => by cases mem
  | item :: items, holds, d, mem => by
    rw [List.forall_mem_cons] at holds
    have first := forall_descendants child item holds.1
    have others := forall_completed child items holds.2
    simp only [completed, List.mem_append, List.mem_cons, List.not_mem_nil, or_false] at mem first
    grind

end

end Below

theorem isPlain_withMark (mark : α) (e : Expr α) : (e.withMark mark).isPlain = e.isPlain := by
  cases e <;> simp only [withMark, isPlain]

theorem descendants_withMark (mark : α) (e : Expr α) :
    (e.withMark mark).descendants = e.descendants := by
  cases e <;> simp only [withMark, descendants]

theorem mark_withMark (mark : α) (e : Expr α) : (e.withMark mark).mark = mark := by
  cases e <;> rfl

theorem withMark_mark (e : Expr α) : e.withMark e.mark = e := by
  cases e <;> rfl

theorem withMark_withMark (e : Expr α) (first second : α) :
    (e.withMark first).withMark second = e.withMark second := by
  cases e <;> rfl

theorem children_withMark (mark : α) (e : Expr α) : (e.withMark mark).children = e.children := by
  cases e <;> rfl

end Expr

end TidyScript
