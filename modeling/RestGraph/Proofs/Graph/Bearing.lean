import RestGraph.Proofs.Graph.Sound

/-!
# Bearing

The fields below a branch are borne by the topmost composition that the branch is merged into. A way
down is straight when every field on it is one that its bearer has kept, and no list on it is merged
into a composition. The keys of the fields on the way are those of the value in the JSON.
-/

namespace RestGraph

namespace Graph

variable {g : Graph} {a b c i p q : Nat}

/-- The topmost composition that the node is merged into. -/
def bearer? (g : Graph) (i : Nat) : Option Nat :=
  match (g.node i).parent with
  | none => none
  | some p =>
    if p < i then
      if (g.node p).kind.isComposition then some ((g.bearer? p).getD p)
      else if (g.node p).kind.expands then g.bearer? p else none
    else none
termination_by i

/-- Whether another property of its name is kept in its place: by the object that it belongs to, or
by the composition that bears the fields of the object. -/
def isShadowed (g : Graph) (q : Nat) : Bool :=
  match (g.node q).parent with
  | none => false
  | some o => (g.node o).kind.tag == .object && [o, (g.bearer? o).getD o].any fun n =>
      (g.node n).props.any fun x => x.1 == (g.node q).name && x.2 != q

/-- Whether the node is a list that is merged into a composition. -/
def isMergedList (g : Graph) (i : Nat) : Bool :=
  (g.node i).kind.tag == .array && (g.bearer? i).isSome

/-- Whether no property on the way down to the node is shadowed and no list there is merged. -/
def isStraight (g : Graph) (i : Nat) : Bool :=
  (g.chain i).all fun a => !g.isShadowed a && !g.isMergedList a

/-- Whether the node is a property that is no element of an array property. -/
def isField (g : Graph) (q : Nat) : Bool :=
  (g.node q).isProperty && (g.node q).parent.all fun p => !(g.node p).isProperty

/-- The keys of the fields on the way down to the node. -/
def keysOf (g : Graph) (i : Nat) : List String :=
  ((g.chain i).filter g.isField).map fun q => (g.node q).name

/-! ## One step down -/

namespace Forest

variable (forest : g.Forest)

include forest

theorem bearer?_of_child (child : c ∈ (g.node p).children) : g.bearer? c =
    if (g.node p).kind.isComposition then some ((g.bearer? p).getD p)
    else if (g.node p).kind.expands then g.bearer? p else none := by
  rw [bearer?, forest.parent child]
  exact if_pos (forest.below child).1

theorem chain_of_child (child : c ∈ (g.node p).children) : g.chain c = g.chain p ++ [c] := by
  rw [chain, chain, forest.ancestors_of_child child, List.reverse_cons]

/-- The keys on the way to a child are those of its parent, and its own if it is a field. -/
theorem keysOf_of_child (child : c ∈ (g.node p).children) :
    g.keysOf c = g.keysOf p ++ if g.isField c then [(g.node c).name] else [] := by
  rw [keysOf, forest.chain_of_child child, List.filter_append, List.map_append, keysOf]
  cases field : g.isField c <;> simp [field]

/-- The way to a child is straight when the way to its parent is and nothing hides the child. -/
theorem isStraight_of_child (child : c ∈ (g.node p).children) : g.isStraight c = true ↔
    g.isStraight p = true ∧ g.isShadowed c = false ∧ g.isMergedList c = false := by
  rw [isStraight, forest.chain_of_child child, List.all_append, Bool.and_eq_true, isStraight]
  simp

theorem isField_of_child (child : c ∈ (g.node p).children) : g.isField c =
    ((g.node c).isProperty && !(g.node p).isProperty) := by
  rw [isField, forest.parent child]
  rfl

/-- Some field leads to every property. -/
theorem keysOf_ne_nil (prop : (g.node q).isProperty = true) : g.keysOf q ≠ [] := by
  induction q using Nat.strongRecOn with
  | ind q ih =>
    have whole : g.isField q = true → g.keysOf q ≠ [] := fun field none => by
      have mem : q ∈ (g.chain q).filter g.isField :=
        List.mem_filter.mpr ⟨mem_chain.mpr (.inl rfl), field⟩
      rw [List.map_eq_nil_iff.mp none] at mem
      cases mem
    cases parent : (g.node q).parent with
    | none => exact whole (by rw [isField, parent, prop]; rfl)
    | some p =>
      have child := forest.child parent
      cases above : (g.node p).isProperty with
      | false => exact whole (by rw [forest.isField_of_child child, prop, above]; rfl)
      | true =>
        rw [forest.keysOf_of_child child]
        exact List.append_ne_nil_of_left_ne_nil (ih p (forest.below child).1 above) _

/-- No field is below a node that leads on without being an object. -/
theorem not_isField (child : c ∈ (g.node p).children) (other : (g.node p).kind.tag ≠ .object) :
    g.isField c = false := by
  have admits := forest.admits child
  rw [forest.isField_of_child child]
  cases prop : (g.node c).kind.isProperty with
  | false => rw [Node.isProperty, prop, Bool.false_and]
  | true =>
    cases c' : (g.node c).kind <;> rw [c'] at prop admits <;> cases prop
    cases p' : (g.node p).kind <;> rw [p'] at admits other <;>
      first | exact absurd rfl other | skip
    all_goals first | (rw [Node.isProperty, Node.isProperty, c', p']; rfl) | cases admits

theorem not_isShadowed (child : c ∈ (g.node p).children) (other : (g.node p).kind.tag ≠ .object) :
    g.isShadowed c = false := by
  rw [isShadowed, forest.parent child]
  exact Bool.and_eq_false_iff.mpr (.inl (beq_eq_false_iff_ne.mpr other))

/-- A property that is not shadowed is the only one of its name in the object and its bearer. -/
theorem isShadowed_eq_false (child : q ∈ (g.node p).children)
    (object : (g.node p).kind.tag = .object) : g.isShadowed q = false ↔
      ∀ n x, n = p ∨ n = (g.bearer? p).getD p → x ∈ (g.node n).props →
        x.1 = (g.node q).name → x.2 = q := by
  have unique : ∀ n, ((g.node n).props.any fun x => x.1 == (g.node q).name && x.2 != q) = false ↔
      ∀ x ∈ (g.node n).props, x.1 = (g.node q).name → x.2 = q := fun n => by
    simp only [List.any_eq_false, Bool.and_eq_true, beq_iff_eq, bne_iff_ne, not_and, not_not]
  rw [isShadowed, forest.parent child]
  simp only [object, beq_self_eq_true, Bool.true_and, List.any_cons, List.any_nil, Bool.or_false,
    Bool.or_eq_false_iff, unique]
  constructor
  · rintro ⟨own, borne⟩ n x (rfl | rfl) field
    · exact own x field
    · exact borne x field
  · exact fun all => ⟨fun x => all p x (.inl rfl), fun x => all _ x (.inr rfl)⟩

/-- Nothing is merged further below a node that is none of those with branches. -/
theorem bearer?_of_not_expands (child : c ∈ (g.node p).children)
    (other : (g.node p).kind.expands = false) : g.bearer? c = none := by
  have plain : (g.node p).kind.isComposition = false := by
    cases kind : (g.node p).kind <;> rw [kind] at other <;> first | rfl | cases other
  rw [forest.bearer?_of_child child, plain, other]
  rfl

@[simp]
theorem bearer?_of_isProperty (prop : (g.node q).isProperty = true) : g.bearer? q = none := by
  cases parent : (g.node q).parent with
  | none => rw [bearer?, parent]
  | some p =>
    have child := forest.child parent
    refine forest.bearer?_of_not_expands child ?_
    have admits := forest.admits child
    cases kind : (g.node q).kind <;> rw [Node.isProperty, kind] at prop <;> cases prop
    cases above : (g.node p).kind <;> rw [above, kind] at admits <;> first | rfl | cases admits

/-- On a straight way, a node that leads on without branches is no branch itself. -/
theorem bearer?_of_straight (leads : (g.node i).kind.isWrapper = true ∨
    (g.node i).kind.isArray = true)
    (inert : (g.node i).kind.expands = false) (straight : g.isStraight i = true) :
    g.bearer? i = none := by
  by_cases prop : (g.node i).isProperty = true
  · exact forest.bearer?_of_isProperty prop
  · have tag : (g.node i).kind.tag = .array := by
      rw [Node.isProperty] at prop
      cases kind : (g.node i).kind <;> rw [kind] at leads inert prop <;> first
        | rfl
        | exact Bool.noConfusion inert
        | exact absurd rfl prop
        | exact leads.elim Bool.noConfusion Bool.noConfusion
    have merged := List.all_eq_true.mp straight i (mem_chain.mpr (.inl rfl))
    simpa [isMergedList, tag] using ((Bool.and_eq_true _ _).mp merged).2

/-! ## Branches -/

/-- A branch of a composition that nothing bears is borne by the composition, and stands below it
without a field between. -/
theorem bearer?_of_branch (top : g.bearer? a = none)
    (composition : (g.node a).kind.isComposition = true)
    (branch : g.Branch a b) : g.bearer? b = some a ∧ g.keysOf b = g.keysOf a ∧
      g.isShadowed b = false := by
  have step : ∀ {x y}, g.Edge x y → (g.bearer? x).getD x = a →
      (x = a ∨ g.bearer? x = some a) → g.keysOf x = g.keysOf a →
      g.bearer? y = some a ∧ g.keysOf y = g.keysOf a ∧ g.isShadowed y = false := by
    intro x y edge bears known keys
    have other : (g.node x).kind.tag ≠ .object := by
      have expands := edge.1
      cases kind : (g.node x).kind <;> rw [kind] at expands <;>
        first | exact Tag.noConfusion | cases expands
    refine ⟨?_, ?_, forest.not_isShadowed edge.2 other⟩
    · rw [forest.bearer?_of_child edge.2, edge.1, bears]
      rcases known with rfl | known
      · rw [composition]
        rfl
      · rw [known]
        split <;> rfl
    · rw [forest.keysOf_of_child edge.2, forest.not_isField edge.2 other, keys]
      exact List.append_nil _
  induction branch with
  | single edge => exact step edge (by rw [top]; rfl) (.inl rfl) rfl
  | tail _ edge ih => exact step edge (by rw [ih.1]; rfl) (.inr ih.1) ih.2.1

/-- The way to a branch that is no list is straight if that to the composition is. -/
theorem isStraight_of_branch (top : g.bearer? a = none)
    (composition : (g.node a).kind.isComposition = true) (straight : g.isStraight a = true)
    (branch : g.Branch a b) (other : (g.node b).kind.tag ≠ .array) : g.isStraight b = true := by
  have single : ∀ {x y}, g.Edge x y → g.isStraight x = true → g.isShadowed y = false →
      (g.node y).kind.tag ≠ .array → g.isStraight y = true := fun edge straight shown other => by
    refine (forest.isStraight_of_child edge.2).mpr ⟨straight, shown, ?_⟩
    exact Bool.and_eq_false_iff.mpr (.inl (beq_eq_false_iff_ne.mpr other))
  induction branch with
  | single edge =>
    exact single edge straight (forest.bearer?_of_branch top composition (.single edge)).2.2 other
  | tail before edge ih =>
    refine single edge (ih ?_)
      (forest.bearer?_of_branch top composition (before.tail edge)).2.2 other
    have expands := edge.1
    intro array
    cases kind : (g.node _).kind <;> rw [kind] at expands array <;> cases array
    cases expands

/-! ## On the way to the element -/

/-- A node that leads on to the next has the same place among the fields. -/
theorem leads_to_child (leads : (g.node i).kind.isWrapper = true ∨ (g.node i).kind.isArray = true)
    (child : c ∈ (g.node i).children) (top : g.bearer? i = none) : g.bearer? c = none ∧
      g.keysOf c = g.keysOf i ∧ g.isStraight c = g.isStraight i := by
  have plain : (g.node i).kind.isComposition = false ∧ (g.node i).kind.tag ≠ .object := by
    cases kind : (g.node i).kind <;> rw [kind] at leads <;>
      first
        | exact ⟨rfl, Tag.noConfusion⟩
        | (rcases leads with leads | leads <;> cases leads)
  have bearer : g.bearer? c = none := by
    rw [forest.bearer?_of_child child, plain.1, top]
    simp
  refine ⟨bearer, ?_, ?_⟩
  · rw [forest.keysOf_of_child child, forest.not_isField child plain.2]
    exact List.append_nil _
  · have merged : g.isMergedList c = false := by
      rw [isMergedList, bearer, Option.isSome_none, Bool.and_false]
    rw [Bool.eq_iff_iff, forest.isStraight_of_child child]
    exact and_iff_left ⟨forest.not_isShadowed child plain.2, merged⟩

theorem leads_to_element (top : g.bearer? i = none) : g.bearer? (g.elementOf i) = none ∧
    g.keysOf (g.elementOf i) = g.keysOf i ∧ g.isStraight (g.elementOf i) = g.isStraight i ∧
      (g.elementOf i = i ∨ i ∈ g.ancestors (g.elementOf i)) := by
  fun_induction elementOf g i with
  | case1 i kind leads c bounds found ih =>
    obtain ⟨rest, children⟩ := firstBelow?_eq_some found
    have child : c ∈ (g.node i).children := children ▸ List.mem_cons_self
    obtain ⟨top', keys, straight⟩ :=
      forest.leads_to_child ((Bool.or_eq_true _ _).mp leads) child top
    obtain ⟨top'', keys', straight', way⟩ := ih top'
    have above : i ∈ g.ancestors c := forest.ancestors_of_child child ▸ List.mem_cons_self
    exact ⟨top'', keys'.trans keys, straight'.trans straight,
      .inr (way.elim (fun same => same.symm ▸ above) (mem_ancestors_trans above))⟩
  | case2 | case3 => exact ⟨top, rfl, rfl, .inl rfl⟩

end Forest

end Graph

end RestGraph
