import TidyScript.Proofs.Grammar.Along
import TidyScript.Proofs.Grammar.Operator
import TidyScript.Proofs.Token.Quoted
import TidyScript.Proofs.Tree.Order

/-!
# What every parse does to a state

Whatever a parse reads, it takes tokens from the front of the row, ends where the last of them
ends, leaves the end mark alone and gives the mode back as it was. The nodes in the tables stay
there: parentheses around a node change its mark and nothing else.

The tables also hold lists of statements: the bodies of functions, blocks, cases and loops. Each
of them has been recited, that is, its statements have been read one behind the other, each from
where the one before has ended.

These facts compose, so they are found for a production from the steps it is made of. `Steps` is a
class for that reason. Only productions that complete a node with a list in it are looked at one by
one.
-/

namespace TidyScript

variable {α β : Type}

/-! ## Names and lists in the tables -/

/-- Is it a name that is written as a string? -/
def Expr.isQuotedName : Expr α → Bool
  | .identifier _ name => name.toList.head?.any Token.isQuote
  | _ => false

theorem Expr.isQuotedName_withMark (mark : α) (e : Expr α) :
    (e.withMark mark).isQuotedName = e.isQuotedName := by
  cases e <;> rfl

/-- The list of statements directly in the body of a function. -/
def FunctionBody.lists : FunctionBody α → List (List (Stmt α))
  | .block body => [body]
  | .expression _ => []

/-- The list of statements directly in an expression. -/
def Expr.lists : Expr α → List (List (Stmt α))
  | .function _ _ _ body _ => body.lists
  | _ => []

theorem Expr.lists_withMark (mark : α) (e : Expr α) : (e.withMark mark).lists = e.lists := by
  cases e <;> rfl

/-- The lists of statements directly in a statement. A single statement where a block could stand
is a list of its own. -/
def Stmt.lists : Stmt α → List (List (Stmt α))
  | .function _ _ _ body => [body]
  | .branch _ _ consequent alternate => [consequent] :: alternate.toList.map ([·])
  | .block _ body => [body]
  | .forLoop _ _ _ _ body => [[body]]
  | .forIn _ _ _ body => [[body]]
  | .forOf _ _ _ body => [[body]]
  | .whileLoop _ _ body => [[body]]
  | .doWhile _ body _ => [[body]]
  | .switch _ _ cases => cases.map SwitchCase.consequent
  | .labeled _ _ body => [[body]]
  | _ => []

namespace Grammar

/-- Statements that have been read one behind the other. -/
inductive Recital : State → List (Stmt Mark) → State → Prop where
  | nil (s : State) : Recital s [] s
  | cons {s s' s'' : State} {x : Stmt Mark} {xs : List (Stmt Mark)} (depth : Nat)
      (read : (Productions.upTo depth).statement s = .ok x s') (more : Recital s' xs s'') :
      Recital s (x :: xs) s''

namespace State

/-- Each node in the tables of the first state is in those of the second, in the same place. At most
its place with enclosing parentheses is another one. -/
structure Keeps (s s' : State) : Prop where
  exprs : ∀ {i : Nat} {e : Expr Mark}, s.exprs[i]? = some e →
    ∃ outer, s'.exprs[i]? = some (e.withMark { e.mark with outer })
  stmts : ∀ {i : Nat} {x : Stmt Mark}, s.stmts[i]? = some x → s'.stmts[i]? = some x

/-- An expression in the table is a name written as a string. -/
def HasQuotedName (s : State) : Prop :=
  ∃ e ∈ s.exprs, e.isQuotedName = true

/-- The list of statements is in a node of the tables. -/
def Has (s : State) (list : List (Stmt Mark)) : Prop :=
  (∃ x ∈ s.stmts, list ∈ x.lists) ∨ ∃ e ∈ s.exprs, list ∈ e.lists

/-- The list of statements has been recited somewhere in the row, before this state. -/
def Recited (row : TokenRow) (s : State) (list : List (Stmt Mark)) : Prop :=
  ∃ first last, Recital first list last ∧ first.rest <:+ row.tokens ∧ first.stop = row.stop ∧
    (last.HasQuotedName → s.HasQuotedName)

/-- The state is one in the row, and all lists in its tables have been recited. -/
structure Told (row : TokenRow) (s : State) : Prop where
  suffix : s.rest <:+ row.tokens
  stop : s.stop = row.stop
  lists : ∀ list, s.Has list → s.Recited row list

/-- From the first state to the second, a parse may lead. -/
structure Steps (s s' : State) : Prop where
  taken : (s'.rest = s.rest ∧ s'.lastEnd = s.lastEnd) ∨
    ∃ read token, s.rest = read ++ token :: s'.rest ∧ s'.lastEnd = token.span.stop
  stop : s'.stop = s.stop
  mode : s'.noIn = s.noIn
  keeps : s.Keeps s'
  told : ∀ row, s.Told row → s'.Told row

variable {s s' s'' : State} {row : TokenRow} {list : List (Stmt Mark)}

namespace Keeps

theorem of_tables (exprs : s'.exprs = s.exprs) (stmts : s'.stmts = s.stmts) : s.Keeps s' :=
  ⟨fun {_ e} found => ⟨e.outer, by rw [exprs, found]; exact congrArg some e.withMark_mark.symm⟩,
    fun found => stmts ▸ found⟩

theorem trans (first : s.Keeps s') (second : s'.Keeps s'') : s.Keeps s'' where
  exprs {i e} found := by
    obtain ⟨outer, found⟩ := first.exprs found
    obtain ⟨outer', found⟩ := second.exprs found
    exact ⟨outer', by rw [found, Expr.withMark_withMark, Expr.mark_withMark]⟩
  stmts found := second.stmts (first.stmts found)

theorem grow (s : State) (e : Expr Mark) : s.Keeps (s.grow e) where
  exprs {i other} found := by
    refine ⟨other.outer, ?_⟩
    rw [State.grow, Array.getElem?_push_lt (Array.getElem?_eq_some_iff.1 found).1]
    rw [← Array.getElem?_eq_getElem, found]
    exact congrArg some other.withMark_mark.symm
  stmts := id

theorem growStmt (s : State) (x : Stmt Mark) : s.Keeps (s.growStmt x) where
  exprs := (of_tables rfl rfl : s.Keeps s).exprs
  stmts found := by
    rw [State.growStmt, Array.getElem?_push_lt (Array.getElem?_eq_some_iff.1 found).1]
    rw [← Array.getElem?_eq_getElem, found]

theorem quoted (keeps : s.Keeps s') (has : s.HasQuotedName) : s'.HasQuotedName := by
  obtain ⟨e, mem, isName⟩ := has
  obtain ⟨i, found⟩ := Array.mem_iff_getElem?.1 mem
  obtain ⟨outer, found⟩ := keeps.exprs found
  exact ⟨_, Array.mem_iff_getElem?.2 ⟨i, found⟩, by rwa [Expr.isQuotedName_withMark]⟩

end Keeps

theorem Recited.mono (recited : s.Recited row list)
    (quoted : s.HasQuotedName → s'.HasQuotedName) : s'.Recited row list := by
  obtain ⟨first, last, recital, suffix, stop, earlier⟩ := recited
  exact ⟨first, last, recital, suffix, stop, fun has => quoted (earlier has)⟩

/-- A state with the same tables and no more tokens. -/
theorem Told.of_tables (told : s.Told row) (suffix : s'.rest <:+ s.rest) (stop : s'.stop = s.stop)
    (exprs : s'.exprs = s.exprs) (stmts : s'.stmts = s.stmts) : s'.Told row := by
  refine ⟨suffix.trans told.suffix, stop.trans told.stop, fun list has => ?_⟩
  refine (told.lists list ?_).mono fun ⟨e, mem, isName⟩ => ⟨e, exprs ▸ mem, isName⟩
  rwa [Has, ← exprs, ← stmts]

theorem Told.inMode (told : s.Told row) (noIn : Bool) : (s.inMode noIn).Told row :=
  told.of_tables (List.suffix_refl _) rfl rfl rfl

/-- A statement whose lists have been recited can be added. -/
theorem Told.growStmt (told : s.Told row) {x : Stmt Mark}
    (lists : ∀ list ∈ x.lists, s.Recited row list) : (s.growStmt x).Told row := by
  refine ⟨told.suffix, told.stop, fun list has => ?_⟩
  suffices s.Recited row list from this.mono id
  rcases has with ⟨y, mem, inside⟩ | inExpr
  · rcases Array.mem_push.1 mem with old | rfl
    · exact told.lists list (.inl ⟨y, old, inside⟩)
    · exact lists list inside
  · exact told.lists list (.inr inExpr)

/-- An expression whose list has been recited can be added. -/
theorem Told.grow (told : s.Told row) {e : Expr Mark}
    (lists : ∀ list ∈ e.lists, s.Recited row list) : (s.grow e).Told row := by
  refine ⟨told.suffix, told.stop, fun list has => ?_⟩
  suffices s.Recited row list from this.mono (Keeps.grow s e).quoted
  rcases has with inStmt | ⟨other, mem, inside⟩
  · exact told.lists list (.inl inStmt)
  · rcases Array.mem_push.1 mem with old | rfl
    · exact told.lists list (.inr ⟨other, old, inside⟩)
    · exact lists list inside

/-- The expression that parentheses are recorded around stays where it was. -/
theorem getElem?_enclosing {e : Expr Mark} (placed : s.exprs[e.index]? = some e) (outer : Span) :
    (s.enclosing (e.withMark { e.mark with outer })).exprs[e.index]? =
      some (e.withMark { e.mark with outer }) := by
  rw [State.enclosing, Expr.index, Expr.mark_withMark]
  exact Array.getElem?_setIfInBounds_self_of_lt (Array.getElem?_eq_some_iff.1 placed).1

theorem Keeps.enclosing {e : Expr Mark} (placed : s.exprs[e.index]? = some e) (outer : Span) :
    s.Keeps (s.enclosing (e.withMark { e.mark with outer })) where
  exprs {i other} found := by
    by_cases here : e.index = i
    · obtain rfl : e = other := by
        rw [← here, placed] at found
        exact Option.some.inj found
      exact ⟨outer, here ▸ getElem?_enclosing placed outer⟩
    · refine ⟨other.outer, ?_⟩
      rw [State.enclosing, Expr.index, Expr.mark_withMark]
      exact (Array.getElem?_setIfInBounds_ne here).trans
        (found.trans (congrArg some other.withMark_mark.symm))
  stmts := id

namespace Steps

theorem refl (s : State) : s.Steps s :=
  ⟨.inl ⟨rfl, rfl⟩, rfl, rfl, .of_tables rfl rfl, fun _ => id⟩

theorem trans (first : s.Steps s') (second : s'.Steps s'') : s.Steps s'' where
  taken := by
    rcases first.taken with ⟨rest, lastEnd⟩ | ⟨read, token, rest, lastEnd⟩
    · rcases second.taken with ⟨rest', lastEnd'⟩ | ⟨read, token, rest', lastEnd'⟩
      · exact .inl ⟨rest'.trans rest, lastEnd'.trans lastEnd⟩
      · exact .inr ⟨read, token, rest.symm.trans rest', lastEnd'⟩
    · rcases second.taken with ⟨rest', lastEnd'⟩ | ⟨read', token', rest', lastEnd'⟩
      · exact .inr ⟨read, token, rest'.symm ▸ rest, lastEnd'.trans lastEnd⟩
      · exact .inr ⟨read ++ token :: read', token', by rw [rest, rest']; simp, lastEnd'⟩
  stop := second.stop.trans first.stop
  mode := second.mode.trans first.mode
  keeps := first.keeps.trans second.keeps
  told row := second.told row ∘ first.told row

theorem suffix (steps : s.Steps s') : s'.rest <:+ s.rest := by
  rcases steps.taken with ⟨rest, _⟩ | ⟨read, token, rest, _⟩
  · exact rest ▸ List.suffix_refl _
  · exact ⟨read ++ [token], by rw [rest]; simp⟩

theorem quoted (steps : s.Steps s') : s.HasQuotedName → s'.HasQuotedName :=
  steps.keeps.quoted

theorem length_le (steps : s.Steps s') : s'.rest.length ≤ s.rest.length :=
  steps.suffix.length_le

theorem next (s : State) : s.Steps s.next := by
  obtain ⟨rest, stop, lastEnd, noIn, exprs, stmts⟩ := s
  cases rest with
  | nil => exact refl _
  | cons token rest =>
    exact ⟨.inr ⟨[], token, rfl, rfl⟩, rfl, rfl, .of_tables rfl rfl,
      fun _ told => told.of_tables (List.suffix_cons ..) rfl rfl rfl⟩

/-- A statement is completed whose lists have been recited on the way. -/
theorem growStmt (steps : s.Steps s') {x : Stmt Mark}
    (lists : ∀ row, s.Told row → ∀ list ∈ x.lists, s'.Recited row list) :
    s.Steps (s'.growStmt x) :=
  ⟨steps.taken, steps.stop, steps.mode, steps.keeps.trans (.growStmt s' x),
    fun row told => (steps.told row told).growStmt (lists row told)⟩

/-- An expression is completed whose list has been recited on the way. -/
theorem grow (steps : s.Steps s') {e : Expr Mark}
    (lists : ∀ row, s.Told row → ∀ list ∈ e.lists, s'.Recited row list) :
    s.Steps (s'.grow e) :=
  ⟨steps.taken, steps.stop, steps.mode, steps.keeps.trans (.grow s' e),
    fun row told => (steps.told row told).grow (lists row told)⟩

/-- Parentheses are recorded around an expression in the table. -/
theorem enclosing (steps : s.Steps s') {e : Expr Mark} (placed : s'.exprs[e.index]? = some e)
    (outer : Span) (lists : ∀ row, s.Told row → ∀ list ∈ e.lists, s'.Recited row list) :
    s.Steps (s'.enclosing (e.withMark { e.mark with outer })) := by
  refine ⟨steps.taken, steps.stop, steps.mode, steps.keeps.trans (.enclosing placed outer),
    fun row told => ?_⟩
  have before := steps.told row told
  refine ⟨before.suffix, before.stop, fun list has => ?_⟩
  suffices s'.Recited row list from this.mono (Keeps.enclosing placed outer).quoted
  rcases has with inStmt | ⟨other, mem, inside⟩
  · exact before.lists list (.inl inStmt)
  · rcases Array.mem_or_eq_of_mem_setIfInBounds mem with old | rfl
    · exact before.lists list (.inr ⟨other, old, inside⟩)
    · rw [Expr.lists_withMark] at inside
      exact lists row told list inside

end Steps

end State

/-! ## Parses that step -/

/-- Wherever the parse leads, it leads by steps. -/
abbrev Steps (x : Parse α) : Prop :=
  Along State.Steps x

instance : Track State.Steps where
  refl := .refl
  trans := .trans
  next := .next

namespace Steps

variable {s s' : State}

theorem steps {x : Parse α} [steps : Steps x] {a : α} (run : x s = .ok a s') : s.Steps s' :=
  steps.along run

instance withNoIn {x : Parse α} [inner : Steps x] (noIn : Bool) :
    Steps (Grammar.withNoIn noIn x) where
  along {s a s'} run := by
    obtain ⟨middle, found, rfl⟩ := withNoIn_eq_ok.1 run
    have steps := inner.along found
    exact ⟨steps.taken, steps.stop, rfl, ⟨steps.keeps.exprs, steps.keeps.stmts⟩,
      fun row told => (steps.told row (told.inMode noIn)).inMode s.noIn⟩

/-! ### Completing nodes -/

/-- Whatever its mark, the expression has it and holds none but the given lists. -/
class HoldsExpr (lists : List (List (Stmt Mark))) (build : Mark → Expr Mark) : Prop where
  mark_eq : ∀ mark, (build mark).mark = mark := by exact fun _ => rfl
  subset : ∀ mark, (build mark).lists ⊆ lists := by exact fun _ => List.nil_subset _

/-- Whatever its mark, the statement holds none but the given lists. -/
class HoldsStmt (lists : List (List (Stmt Mark))) (build : Mark → Stmt Mark) : Prop where
  subset : ∀ mark, (build mark).lists ⊆ lists := by intro; simp [Stmt.lists]

section Holds

variable {lists : List (List (Stmt Mark))} {name : String} {op : UnaryOp} {e e' e'' : Expr Mark}
  {flag flag' : Bool} {es : List (Expr Mark)} {key : Key Mark} {x y : Stmt Mark}
  {body : List (Stmt Mark)} {left : ForHead Mark} {init : Option (Stmt Mark)}
  {test update : Option (Expr Mark)}

instance : HoldsExpr lists (.identifier · name) where
instance : HoldsExpr lists (.unary · op e) where
instance : HoldsExpr lists (.update · flag flag' e) where
instance : HoldsExpr lists (.conditional · e e' e'') where
instance : HoldsExpr lists (.assignment · name e e') where
instance : HoldsExpr lists (.member · e key flag) where
instance : HoldsExpr lists (.call · e es flag) where
instance : HoldsExpr lists (.construct · e es) where
instance {elements : List (Element Mark)} : HoldsExpr lists (.array · elements) where
instance {members : List (ObjectMember Mark)} : HoldsExpr lists (.object · members) where
instance : HoldsExpr lists (.sequence · es) where
instance : HoldsExpr lists (.spread · e) where
instance : HoldsExpr lists .hidden where
instance {op : Infix} : HoldsExpr lists (op.build e e') :=
  ⟨fun _ => by cases op <;> rfl, fun _ => by cases op <;> exact List.nil_subset _⟩

instance {name : Option String} {body : FunctionBody Mark} :
    HoldsExpr (body.lists ++ lists) (.function · name es body flag) :=
  ⟨fun _ => rfl, fun _ => List.subset_append_left ..⟩

instance {name : Option String} :
    HoldsExpr ([body] ++ lists) (.function · name es (.block body) flag) :=
  inferInstanceAs (HoldsExpr (FunctionBody.lists (.block body) ++ lists) _)

theorem HoldsExpr.of_atom? {token : Token} {build : Mark → Expr Mark}
    (found : atom? token = some build) : HoldsExpr lists build := by
  unfold atom? at found
  repeat' split at found
  all_goals first | (cases found; done) | (cases found; exact {})

instance : HoldsStmt lists (.expression · e) where
instance {kind : DeclarationKind} {declarators : List (Declarator Mark)} :
    HoldsStmt lists (.declaration · kind declarators) where
instance {value : Option (Expr Mark)} : HoldsStmt lists (.returning · value) where
instance : HoldsStmt lists (.throwing · e) where
instance {handler : Option (Handler Mark)} {finalizer : Option (Stmt Mark)} :
    HoldsStmt lists (.attempt · x handler finalizer) where
instance : HoldsStmt lists .empty where
instance : HoldsStmt lists .hidden where
instance {c : Prop} [Decidable c] {label : Option String} :
    HoldsStmt lists fun mark => if c then .breaking mark label else .continuing mark label :=
  ⟨fun _ => by split <;> exact List.nil_subset _⟩

instance : HoldsStmt ([body] ++ lists) (.block · body) where
instance : HoldsStmt ([body] ++ lists) (.function · name es body) where
instance : HoldsStmt ([[x]] ++ lists) (.branch · e x none) where
instance : HoldsStmt ([[y]] ++ ([[x]] ++ lists)) (.branch · e x (some y)) where
instance : HoldsStmt ([[x]] ++ lists) (.forLoop · init test update x) where
instance : HoldsStmt ([[x]] ++ lists) (.forIn · left e x) where
instance : HoldsStmt ([[x]] ++ lists) (.forOf · left e x) where
instance : HoldsStmt ([[x]] ++ lists) (.whileLoop · e x) where
instance : HoldsStmt ([[x]] ++ lists) (.doWhile · x e) where
instance : HoldsStmt ([[x]] ++ lists) (.labeled · name x) where
instance {cases : List (SwitchCase Mark)} :
    HoldsStmt ((cases.flatMap fun branch => [branch.consequent]) ++ lists) (.switch · e cases) :=
  ⟨fun _ => List.map_eq_flatMap ▸ List.subset_append_left ..⟩

end Holds

instance pushExpr {span : Span} {build : Mark → Expr Mark} [holds : HoldsExpr [] build] :
    Steps (Grammar.pushExpr span build) where
  along := by
    rintro s _ _ ⟨⟩
    exact (State.Steps.refl s).grow fun _ _ list mem => nomatch holds.subset _ mem

instance pushStmt {span : Span} {build : Mark → Stmt Mark} [holds : HoldsStmt [] build] :
    Steps (Grammar.pushStmt span build) where
  along := by
    rintro s _ _ ⟨⟩
    exact (State.Steps.refl s).growStmt fun _ _ list mem => nomatch holds.subset _ mem

instance finishExpr {start : Nat} {build : Mark → Expr Mark} [HoldsExpr [] build] :
    Steps (Grammar.finishExpr start build) := by
  unfold Grammar.finishExpr
  infer_instance

instance finishStmt {start : Nat} {build : Mark → Stmt Mark} [HoldsStmt [] build] :
    Steps (Grammar.finishStmt start build) := by
  unfold Grammar.finishStmt
  infer_instance

/-! ### Nodes with lists -/

/-- The lists of statements that are read have been recited. -/
class Recites (parse : Parse β) (lists : outParam (β → List (List (Stmt Mark)))) : Prop where
  recited : ∀ {s : State} {b : β} {s' : State} {row : TokenRow}, parse s = .ok b s' →
    s.Told row → ∀ list ∈ lists b, s'.Recited row list

namespace Recites

variable {lists : β → List (List (Stmt Mark))}

instance withNoIn {parse : Parse β} [recites : Recites parse lists] {noIn : Bool} :
    Recites (Grammar.withNoIn noIn parse) lists where
  recited run told list mem := by
    obtain ⟨middle, inside, rfl⟩ := withNoIn_eq_ok.1 run
    exact (recites.recited inside (told.inMode noIn) list mem).mono id

instance manyUntil {stop : Parse Bool} {item : Parse β} [asks : Steps stop] [each : Steps item]
    [recites : Recites item lists] :
    Recites (Grammar.manyUntil stop item) (List.flatMap lists) where
  recited {s items s' row} run told list mem := by
    replace run := manyUntil_eq_ok.1 run
    generalize s.rest.length + 1 = bound at run
    induction bound generalizing s items with
    | zero => exact absurd run manyUpTo_zero
    | succ bound ih =>
      rcases manyUpTo_succ.1 run with ⟨_, rfl⟩ | ⟨_, first, middle, others, asked, one, more, rfl⟩
      · cases mem
      · have before := (asks.along asked).told row told
        rcases List.mem_append.1 mem with here | later
        · exact (recites.recited one before list here).mono (Steps.steps more).quoted
        · exact ih ((each.along one).told row before) later more

theorem bind {parse : Parse α} {f : α → Parse β} [first : Steps parse]
    (last : ∀ a, Recites (f a) lists) : Recites (parse >>= f) lists where
  recited run told := by
    obtain ⟨a, _, run, run'⟩ := bind_eq_ok.1 run
    exact (last a).recited run' ((first.along run).told _ told)

theorem ite {c : Prop} [Decidable c] {parse parse' : Parse β} (yes : Recites parse lists)
    (no : Recites parse' lists) : Recites (if c then parse else parse') lists := by
  split
  · exact yes
  · exact no

end Recites

/-- Started where the lists have been recited, the parse steps. -/
class StepsOn (lists : List (List (Stmt Mark))) (parse : Parse α) : Prop where
  steps : ∀ {first s : State} {a : α} {s' : State}, parse s = .ok a s' → first.Steps s →
    (∀ row, first.Told row → ∀ list ∈ lists, s.Recited row list) → first.Steps s'

namespace StepsOn

variable {lists : List (List (Stmt Mark))}

instance bind {parse : Parse β} {f : β → Parse α} [first : Steps parse]
    [last : ∀ b, StepsOn lists (f b)] : StepsOn lists (parse >>= f) where
  steps run before told := by
    obtain ⟨b, _, run, run'⟩ := bind_eq_ok.1 run
    have steps := first.along run
    exact (last b).steps run' (before.trans steps) fun row start list mem =>
      (told row start list mem).mono steps.quoted

instance ite {c : Prop} [Decidable c] {parse parse' : Parse α} [StepsOn lists parse]
    [StepsOn lists parse'] : StepsOn lists (if c then parse else parse') := by split <;> assumption

instance recites {parse : Parse β} {f : β → Parse α} {read : β → List (List (Stmt Mark))}
    [first : Steps parse] [recites : Recites parse read]
    [last : ∀ b, StepsOn (read b ++ lists) (f b)] : StepsOn lists (parse >>= f) where
  steps run before told := by
    obtain ⟨b, _, run, run'⟩ := bind_eq_ok.1 run
    have steps := first.along run
    refine (last b).steps run' (before.trans steps) fun row start list mem => ?_
    rcases List.mem_append.1 mem with new | old
    · exact recites.recited run (before.told row start) list new
    · exact (told row start list old).mono steps.quoted

instance finishExpr {start : Nat} {build : Mark → Expr Mark} [holds : HoldsExpr lists build] :
    StepsOn lists (Grammar.finishExpr start build) where
  steps run before told := by
    obtain ⟨rfl, rfl⟩ := finishExpr_eq_ok.1 run
    exact before.grow fun row start list mem => told row start list (holds.subset _ mem)

instance finishStmt {start : Nat} {build : Mark → Stmt Mark} [holds : HoldsStmt lists build] :
    StepsOn lists (Grammar.finishStmt start build) where
  steps run before told := by
    obtain ⟨rfl, rfl⟩ := finishStmt_eq_ok.1 run
    exact before.growStmt fun row start list mem => told row start list (holds.subset _ mem)

end StepsOn

instance recites {parse : Parse β} {f : β → Parse α} {read : β → List (List (Stmt Mark))}
    [Steps parse] [Recites parse read] [∀ b, StepsOn (read b ++ []) (f b)] :
    Steps (parse >>= f) where
  along run := by
    have steps : StepsOn [] (parse >>= f) := inferInstance
    exact steps.steps run (.refl _) fun _ _ _ mem => nomatch mem

end Steps

end Grammar

end TidyScript
