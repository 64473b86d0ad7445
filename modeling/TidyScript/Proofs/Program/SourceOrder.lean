import TidyScript.Proofs.Program.Forest

/-!
# The order of children

The children of a node come in the order of the source and do not overlap, but for the properties
of object literals. If a colon stands between a computed key and its value, the key comes first. If
not, the value starts in front of the key: it is the function of a method, which starts where the
property starts and reaches around the key, or the bracket of the key itself, which is taken for a
name.
-/

namespace TidyScript

namespace Node

/-- The computed keys of an object literal, each with the value of its property. -/
def computedProperties : Node Mark → List (Expr Mark × Expr Mark)
  | expr (.object _ members) => members.filterMap fun
    | .property (.computed key) value => some (key, value)
    | _ => none
  | _ => []

theorem mem_computedProperties (mark : Mark) {members : List (ObjectMember Mark)}
    {key value : Expr Mark} : (key, value) ∈ (expr (.object mark members)).computedProperties ↔
      .property (.computed key) value ∈ members := by
  rw [computedProperties, List.mem_filterMap]
  constructor
  · rintro ⟨member, mem, is⟩
    split at is
    · cases is
      exact mem
    · cases is
  · exact fun mem => ⟨_, mem, rfl⟩

variable {tokens : List Token} {census : Census} {node : Node Mark}

/-- A computed key has a colon behind it, or its value starts in front of it. -/
theorem Placed.formed (placed : node.Placed tokens census) {key value : Expr Mark}
    (mem : (key, value) ∈ node.computedProperties) :
    (∃ colon ∈ tokens, colon.isPunct ":" = true ∧ key.outer.stop ≤ colon.span.start ∧
      colon.span.stop ≤ value.outer.start) ∨
    value.outer.start < key.outer.start ∧ value.StartsProperty := by
  have shaped := placed.seated.shaped
  unfold computedProperties at mem
  split at mem
  · next mark members => exact shaped.1 _ ((mem_computedProperties mark).1 mem)
  · cases mem

/-- Children are in order, unless they are a computed key and a value that starts in front of it. -/
theorem Placed.pairwise_children
    (written : ∀ token ∈ tokens, token.span.start < token.span.stop)
    (placed : node.Placed tokens census) : node.children.Pairwise fun a b =>
      a.mark.outer.stop ≤ b.mark.outer.start ∨ ∃ key value,
        (key, value) ∈ node.computedProperties ∧ a = .expr key ∧ b = .expr value ∧
          value.outer.start < key.outer.start := by
  by_cases keeps : node.keepsOrder = true
  · exact (placed.seated.spread.inOrder keeps).imp .inl
  have shaped := placed.seated.shaped
  unfold keepsOrder at keeps
  split at keeps
  · next mark members =>
    refine List.pairwise_flatMap.2 ⟨fun member mem => ?_, shaped.2.imp fun before a memA b memB =>
      .inl (before a memA b memB)⟩
    -- only a property with a computed key has two nodes
    cases member with
    | spread value => exact List.pairwise_singleton ..
    | property key value =>
      cases key with
      | named name => exact List.pairwise_singleton ..
      | computed key =>
        have listed := (mem_computedProperties mark).2 mem
        refine List.pairwise_pair.2 ?_
        rcases placed.formed listed with ⟨colon, isToken, _, behind, before⟩ | ⟨early, _⟩
        · have inside := Nat.le_of_lt (written colon isToken)
          exact .inl (Nat.le_trans behind (Nat.le_trans inside before))
        · exact .inr ⟨key, value, listed, rfl, rfl, early⟩
  · exact absurd rfl keeps

end Node

namespace Program

/-- **Children come in the order of the source, but for the value of a property without a colon.**
No child is empty, and of two children the first ends where the second starts or before, unless
they are a computed key and a value that starts in front of it. A value does so exactly if there is
no colon between the two: it is the function of a method, or the bracket of the key taken for a
name. -/
theorem children_inOrder {source : String} {program : Program}
    (read : parse source = .ok program ∨ ∃ e, parseExpression source = .ok (program, e)) :
    ∀ node ∈ program.nodes,
      (∀ child ∈ node.children, child.extent.start < child.extent.stop) ∧
      (node.children.Pairwise fun a b => a.extent.stop ≤ b.extent.start ∨ ∃ key value,
        (key, value) ∈ node.computedProperties ∧ a = .expr key ∧ b = .expr value ∧
          value.outer.start < key.outer.start) ∧
      ∀ key value, (key, value) ∈ node.computedProperties →
        (∃ colon ∈ program.tokens, colon.isPunct ":" = true ∧ key.outer.stop ≤ colon.span.start ∧
          colon.span.stop ≤ value.outer.start) ∨
        value.outer.start < key.outer.start ∧ value.StartsProperty := by
  have seated := seated_of_read read
  intro node mem
  have placed := seated.placed node mem
  refine ⟨fun child below => (extent_of_placed (placed.child child below)).1, ?_,
    fun key value listed => by simpa using placed.formed listed⟩
  refine (placed.pairwise_children (by simpa using seated.written)).imp_of_mem
    fun {a b} memA memB holds => holds.imp_left fun le => ?_
  have first := extent_of_placed (placed.child a memA)
  have second := extent_of_placed (placed.child b memB)
  omega

/-- A key with a colon, a method, a key alone and one with a default, between other properties. -/
theorem children_inOrder_mixed :
    ∃ program node, parse "(\x7b[a]:b,[c]()\x7b\x7d,d,[e],[f]=g,...h\x7d)" = .ok program ∧
      node ∈ program.nodes ∧ node.children.length = 10 ∧
      node.computedProperties.map (fun pair => (pair.1.outer.start, pair.2.outer.start)) =
        [(3, 6), (9, 8), (19, 18), (23, 22)] ∧
      node.children.Pairwise fun a b => a.extent.stop ≤ b.extent.start ∨ ∃ key value,
        (key, value) ∈ node.computedProperties ∧ a = .expr key ∧ b = .expr value ∧
          value.outer.start < key.outer.start := by
  have checked : Option.any (fun program => program.nodes.any fun node =>
      node.children.length = 10 ∧
        node.computedProperties.map (fun pair => (pair.1.outer.start, pair.2.outer.start)) =
          [(3, 6), (9, 8), (19, 18), (23, 22)])
      (parse "(\x7b[a]:b,[c]()\x7b\x7d,d,[e],[f]=g,...h\x7d)").toOption = true := by
    decide +kernel
  obtain ⟨program, read, checked⟩ := exists_ok_of_any checked
  obtain ⟨node, mem, checked⟩ := List.any_eq_true.1 checked
  obtain ⟨count, starts⟩ := of_decide_eq_true checked
  exact ⟨program, node, read, mem, count, starts, (children_inOrder (.inl read) node mem).2.1⟩

/-- A method with a computed key: the function starts in front of the key and ends behind it. -/
theorem exists_children_not_inOrder :
    ∃ program node, parse "(\x7b[k]()\x7b\x7d\x7d)" = .ok program ∧ node ∈ program.nodes ∧
      node.children.map Node.extent = [⟨3, 4⟩, ⟨2, 9⟩] ∧
      ¬ node.children.Pairwise fun a b => a.extent.stop ≤ b.extent.start := by
  have checked : Option.any (fun program => program.nodes.any fun node =>
      node.children.map Node.extent = [⟨3, 4⟩, ⟨2, 9⟩])
      (parse "(\x7b[k]()\x7b\x7d\x7d)").toOption = true := by decide +kernel
  obtain ⟨program, read, checked⟩ := exists_ok_of_any checked
  obtain ⟨node, mem, checked⟩ := List.any_eq_true.1 checked
  have places := of_decide_eq_true checked
  refine ⟨program, node, read, mem, places, fun inOrder => ?_⟩
  rw [← List.pairwise_map (f := Node.extent) (R := fun a b => a.stop ≤ b.start), places] at inOrder
  revert inOrder
  decide

end Program

end TidyScript
