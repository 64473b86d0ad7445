import TidyScript.Proofs.Grammar.Run
import TidyScript.Proofs.Grammar.Unfolding

/-!
# Relations along a parse

Many facts about a parse relate the states before and behind every successful run. Such a relation
holds along a production if it holds along the steps that the production is made of: one that holds
between each state and itself and is transitive holds along steps in a row and along loops, and if
taking a token respects it, along every parse that only takes tokens. This is said here once for all
relations, and each of them adds how it goes along the steps that complete nodes.
-/

namespace TidyScript.Grammar

variable {α β : Type}

/-- The parse leaves the state as it is. -/
class Peeks (x : Parse α) : Prop where
  peeks : ∀ {s a s'}, x s = .ok a s' → s = s'

instance (a : α) : Peeks (pure a : Parse α) := ⟨fun run => (pure_eq_ok.1 run).2⟩
instance : Peeks (get : Parse State) := ⟨fun run => (get_eq_ok.1 run).2⟩
instance : Peeks current := ⟨fun run => (current_eq_ok.1 run).2⟩
instance (count : Nat) : Peeks (peek count) := ⟨fun run => by cases run; rfl⟩
instance (text : String) : Peeks (atPunct text) := ⟨fun run => (atPunct_eq_ok.1 run).2⟩
instance (text : String) : Peeks (atKeyword text) := ⟨fun run => (atKeyword_eq_ok.1 run).2⟩
instance : Peeks atName := ⟨fun run => by cases run; rfl⟩
instance : Peeks atEnd := ⟨fun run => (atEnd_eq_ok.1 run).2⟩

/-- The relation holds between the states before and behind every successful run. -/
class Along (passes : State → State → Prop) (x : Parse α) : Prop where
  along : ∀ {s a s'}, x s = .ok a s' → passes s s'

/-- The relation is respected by doing nothing and by steps in a row. -/
class Course (passes : State → State → Prop) : Prop where
  refl : ∀ s, passes s s
  trans : ∀ {s s' s''}, passes s s' → passes s' s'' → passes s s''

/-- It is respected by taking a token as well. -/
class Track (passes : State → State → Prop) : Prop extends Course passes where
  next : ∀ s, passes s s.next

namespace Along

variable {passes : State → State → Prop}

instance unfolds {x y : Parse α} [unfolds : Unfolds x y] [along : Along passes y] :
    Along passes x :=
  unfolds.eq ▸ along

instance expected (what : String) : Along passes (Grammar.expected what : Parse α) :=
  ⟨fun run => absurd run expected_ne_ok⟩

instance unexpected : Along passes (Grammar.unexpected : Parse α) :=
  ⟨fun run => absurd run unexpected_ne_ok⟩

instance ite {c : Prop} [Decidable c] {x y : Parse α} [Along passes x]
    [Along passes y] : Along passes (if c then x else y) := by split <;> assumption

section Course

variable [course : Course passes]

instance of_peeks {x : Parse α} [peeks : Peeks x] : Along passes x :=
  ⟨fun run => peeks.peeks run ▸ course.refl _⟩

theorem seq {x : Parse β} {f : β → Parse α} (first : Along passes x)
    (further : ∀ b, Along passes (f b)) : Along passes (x >>= f) where
  along run := by
    obtain ⟨b, _, run, run'⟩ := bind_eq_ok.1 run
    exact course.trans (first.along run) ((further b).along run')

instance bind {x : Parse β} {f : β → Parse α} [first : Along passes x]
    [further : ∀ b, Along passes (f b)] : Along passes (x >>= f) :=
  seq first further

instance manyUpTo {stop : Parse Bool} {item : Parse α} [Along passes stop] [Along passes item]
    (bound : Nat) : Along passes (Grammar.manyUpTo stop item bound) := by
  induction bound with
  | zero => exact unexpected
  | succ bound ih =>
    unfold Grammar.manyUpTo
    infer_instance

instance manyUntil {stop : Parse Bool} {item : Parse α} [Along passes stop] [Along passes item] :
    Along passes (Grammar.manyUntil stop item) :=
  seq of_peeks fun _ => manyUpTo _

instance extendUpTo {step : α → Parse (Option α)} [steps : ∀ value, Along passes (step value)]
    (bound : Nat) (value : α) : Along passes (Grammar.extendUpTo step bound value) := by
  induction bound generalizing value with
  | zero => exact unexpected
  | succ bound ih =>
    refine seq (steps value) fun longer => ?_
    cases longer with
    | none => exact of_peeks
    | some longer => exact ih longer

instance extend {step : α → Parse (Option α)} [∀ value, Along passes (step value)] (value : α) :
    Along passes (Grammar.extend step value) :=
  seq of_peeks fun _ => extendUpTo _ value

end Course

section Track

variable [track : Track passes]

instance bump : Along passes Grammar.bump :=
  ⟨fun run => (bump_eq_ok.1 run).2 ▸ track.next _⟩

instance bumpMany (count : Nat) : Along passes (Grammar.bumpMany count) := by
  induction count with
  | zero => exact inferInstanceAs (Along passes (pure ()))
  | succ count ih => exact seq bump fun _ => ih

instance endStatement : Along passes Grammar.endStatement := by
  unfold Grammar.endStatement
  infer_instance

instance expectEnd : Along passes Grammar.expectEnd := by
  unfold Grammar.expectEnd
  infer_instance

end Track

end Along

end TidyScript.Grammar
