import RestGraph.Proofs.Graph.Bounds
import RestGraph.Proofs.Graph.Elements
import RestGraph.Proofs.Graph.Reached

/-!
# Shrinking

What a child is made from is part of what its parent was made from, unless a reference is entered: a
reference node, or an array property that was given by reference. So between two of these nodes
weigh less and less on the way down.
-/

namespace RestGraph

variable {d : Document}

namespace Document

/-- No fragment that a node is made from is larger. -/
def bound (d : Document) : Nat := d.root.size + syntheticSchema.size

theorem Offers.size_le {n : Node} {j : Json} (offered : d.Offers n j)
    (own : n.schema.size ≤ d.bound)
    (shared : ∀ x ∈ n.kind.shared, x.size ≤ d.bound) : j.size ≤ d.bound := by
  obtain ⟨whole, rfl | rfl | mem | rfl, inside⟩ := offered
  · exact inside.size_le.trans (Nat.le_add_right _ _)
  · exact inside.size_le.trans own
  · exact inside.size_le.trans (shared _ mem)
  · exact inside.size_le.trans (Nat.le_add_left _ _)

theorem Decides.size_le {j x : Json} (decides : d.Decides j x) (own : j.size ≤ d.bound) :
    x.size ≤ d.bound := by
  rcases decides.eq_or_within with rfl | inside
  · exact own
  · exact inside.size_le.trans (Nat.le_add_right _ _)

end Document

namespace Graph

variable {g h : Graph} {i p a c place : Nat} {j : Json}

/-! ## Sizes of fragments -/

theorem Derived.size_lt_of_branch (derived : g.Derived d) (forest : g.Forest) (inside : p < g.size)
    (composition : (g.node p).kind.isComposition = true)
    (here : d.fragmentAt? (g.node p) place = some j) : j.size < (g.node p).schema.size := by
  refine size_lt_of_composition composition (derived.shape_of_isKeyed forest inside ?_) here
  cases kind : (g.node p).kind <;> rw [kind] at composition <;> first | rfl | cases composition

theorem size_lt_of_propAt? {n : Node} {name : String} (here : n.propAt? place = some (name, j)) :
    j.size < n.schema.size := by
  unfold Node.propAt? at here
  split at here
  · exact size_lt_of_mem_sortedProperties (List.mem_of_getElem? here)
  · obtain ⟨items, found, same⟩ := Option.map_eq_some_iff.mp here
    cases same
    exact size_lt_of_itemsOf? found
  · cases here

/-- What a node holds for its child is no larger than the bound when its own fragment is not. -/
theorem Derived.size_le_of_fragmentAt? (derived : g.Derived d) (forest : g.Forest)
    (inside : p < g.size) (own : (g.node p).schema.size ≤ d.bound)
    (here : d.fragmentAt? (g.node p) place = some j) : j.size ≤ d.bound := by
  cases kind : (g.node p).kind with
  | composed | union =>
    exact (derived.size_lt_of_branch forest inside (by rw [kind]; rfl) here).le.trans own
  | reference =>
    rw [Document.fragmentAt?, kind] at here
    exact (Document.within_of_lookup? here).size_le.trans (Nat.le_add_right _ _)
  | param =>
    rw [Document.fragmentAt?, kind] at here
    cases here
    split
    · next got => exact (Json.size_lt_of_get? got).le.trans own
    · cases media : Media.schema? (g.node p).schema with
      | none =>
        have small : defaultParamSchema.size ≤ syntheticSchema.size := by decide
        exact small.trans (Nat.le_add_left _ _)
      | some schema => exact (Media.within_of_schema? media).size_le.trans own
  | body | response =>
    rw [Document.fragmentAt?, kind] at here
    cases here
    exact own
  | array =>
    rw [Document.fragmentAt?, kind] at here
    exact (size_lt_of_itemsOf? here).le.trans own
  | _ =>
    rw [Document.fragmentAt?, kind] at here
    cases here

/-- What a node was made from is no larger than the bound. -/
theorem Derived.size_le (derived : g.Derived d) (forest : g.Forest)
    (open_ : ¬(g.node i).kind.IsBare) (inside : i < g.size) :
    (g.node i).schema.size ≤ d.bound ∧ ∀ x ∈ (g.node i).kind.shared, x.size ≤ d.bound := by
  induction i using Nat.strongRecOn with
  | ind i ih =>
    have root : d.root.size ≤ d.bound := Nat.le_add_right _ _
    cases parent : (g.node i).parent with
    | none =>
      have lists := derived.root inside parent
      exact ⟨lists.schema.size_le.trans root, fun x mem => (lists.shared x mem).size_le.trans root⟩
    | some q =>
      have child := forest.child parent
      have lt := forest.parent_lt parent
      have openAbove := forest.open_of_child child open_
      obtain ⟨own, shared⟩ := ih q lt openAbove (lt.trans inside)
      have none : (g.node i).kind.shared = [] :=
        Kind.shared_of_not_operation (Kind.not_operation_of_admits (forest.admits child))
      refine ⟨?_, fun x mem => by rw [none] at mem; cases mem⟩
      cases derived.child_of_mem child with
      | part _ offered => exact offered.size_le own shared
      | schema holds seed stems =>
        rw [stems.schema, (Node.seedBelow?_spec seed).1]
        cases holds with
        | own here => exact derived.size_le_of_fragmentAt? forest (lt.trans inside) own here
        | @wrapped owner k _ _ above here =>
          have mem := List.mem_of_getElem? above
          have lower := (forest.below mem).1
          have bare := Kind.not_isBare_of_isOwner (Node.isOwner_of_propAt? here)
          exact (size_lt_of_propAt? here).le.trans
            (ih owner (lower.trans lt) bare (lower.trans (lt.trans inside))).1
      | prop here decides _ _ _ from_ _ stems =>
        rw [stems.schema, from_]
        exact decides.size_le ((size_lt_of_propAt? here).le.trans own)
      | closing _ bare => exact absurd bare open_

end Graph

/-! ## Weights of nodes -/

theorem Kind.weight_of_isBare {k : Kind} {bound fragment source : Nat} (bare : k.IsBare) :
    k.weight bound fragment source ≤ 1 := by
  rcases bare with circular | ⟨type, rfl⟩ | ⟨type, required, rfl⟩
  · cases k with
    | property shape =>
      cases shape <;> first | exact Nat.le_refl _ | cases circular
    | _ => first | exact Nat.zero_le _ | cases circular
  · exact Nat.zero_le _
  · exact Nat.zero_le _

namespace Graph

variable {g h : Graph} {i p a c place : Nat} {j : Json}

/-- The size of what a property was made from, before its references were followed. -/
def sourceSize (g : Graph) (i : Nat) : Nat := (g.sourceOf? i).elim 0 Json.size

def weight (d : Document) (g : Graph) (i : Nat) : Nat :=
  (g.node i).kind.weight d.bound (g.node i).schema.size (g.sourceSize i)

/-- The source of a property stands at its place below its owner. -/
theorem Forest.sourceOf?_of_child (forest : g.Forest)
    (child : (g.node p).children[place]? = some c) :
    g.sourceOf? c = ((g.node p).propAt? place).map Prod.snd := by
  have nodup : (g.node p).children.Nodup := (forest.sorted p).imp Nat.ne_of_lt
  have mem := List.mem_of_getElem? child
  obtain ⟨lt, at_⟩ := List.getElem?_eq_some_iff.mp child
  have place_ : (g.node p).children.idxOf c = place := by
    rw [← at_]
    exact nodup.idxOf_getElem place lt
  rw [sourceOf?, forest.parent mem, Option.bind_some, place_]

/-- What is made from the source of a property is a property. -/
theorem Forest.isProperty_of_propAt? (forest : g.Forest)
    (child : (g.node p).children[place]? = some c) {x : String × Json}
    (here : (g.node p).propAt? place = some x) : (g.node c).isProperty = true := by
  have owns := Node.isOwner_of_propAt? here
  have admits := forest.admits (List.mem_of_getElem? child)
  cases kind : (g.node p).kind <;> rw [kind] at owns admits <;> try cases owns
  · exact admits
  · next shape _ =>
    cases shape <;> first | exact admits | cases owns

/-- The weight of a node that is made from a fragment alone. -/
theorem weight_of_seed {n : Node} {s : Seed} (made : n.seedBelow? j = some s)
    (stems : (g.node i).StemsFrom s) : g.weight d i ≤ 2 * j.size ∨
      ∃ pointer, (g.node i).kind = .reference pointer := by
  rcases stems.kind with ⟨turns, -⟩ | ⟨circular, -⟩
  · have same := turns.eq_of_not_isProperty
      (Kind.not_isProperty_of_isSchema (Node.seedBelow?_isSchema made))
    obtain ⟨from_, -, ⟨pointer, -, kind, -⟩ | ⟨kind, -⟩⟩ := Node.seedBelow?_spec made
    · exact .inr ⟨pointer, same.trans kind⟩
    · left
      rw [weight, stems.schema, from_, same]
      exact Kind.weight_of_shape kind
  · rw [weight, Kind.weight_of_circular circular]
    exact .inl (Nat.zero_le _)

/-- A node that is made from a fragment alone weighs less than the node that holds the fragment. -/
theorem Firm.weight_lt_of_holds (firm : g.Firm d) (child : c ∈ (g.node p).children)
    (holds : g.Holds d p place j) {s : Seed} {n : Node} (made : n.seedBelow? j = some s)
    (stems : (g.node c).StemsFrom s) : g.weight d c < g.weight d p ∨
      ∃ pointer, (g.node c).kind = .reference pointer := by
  have inside := lt_size_of_child child
  have admits := firm.forest.admits child
  have schema := stems.isSchema (Node.seedBelow?_isSchema made)
  by_cases circular : (g.node c).kind.tag = .circular
  · left
    rw [weight, Kind.weight_of_circular circular]
    exact Kind.weight_pos admits (g.node p).schema.size_pos
  · refine (weight_of_seed made stems).imp_left fun le => Nat.lt_of_le_of_lt le ?_
    cases holds with
    | own here =>
      have small : ¬(g.node p).kind.IsBare → j.size ≤ d.bound := fun open_ =>
        firm.derived.size_le_of_fragmentAt? firm.forest inside
          (firm.derived.size_le firm.forest open_ inside).1 here
      have kept := here
      rw [weight]
      unfold Document.fragmentAt? at here
      split at here
      case h_1 kind | h_2 kind | h_3 kind | h_4 kind =>
        rw [kind] at small ⊢
        have := small (by rintro (e | ⟨_, e⟩ | ⟨_, _, e⟩) <;> cases e)
        simp only [Kind.weight]
        omega
      case h_5 kind =>
        rw [kind]
        have := size_lt_of_itemsOf? here
        simp only [Kind.weight]
        omega
      case h_6 kind | h_7 kind =>
        have := firm.derived.size_lt_of_branch firm.forest inside (by rw [kind]; rfl) kept
        rw [kind]
        simp only [Kind.weight]
        omega
      case h_8 => cases here
    | @wrapped owner k name _ above here =>
      have source : g.sourceSize p = j.size := by
        rw [sourceSize, firm.forest.sourceOf?_of_child above, here]
        rfl
      have prop := firm.forest.isProperty_of_propAt? above here
      obtain ⟨shape, required, kind⟩ := Kind.eq_property_of_isProperty prop
      rw [kind] at admits
      rw [weight, kind, source]
      cases shape with
      | object | enum | composed => exact Nat.lt_succ_self _
      | circular => exact absurd (beq_iff_eq.mp admits) circular
      | array =>
        rw [Kind.admits, Kind.not_isProperty_of_isSchema schema] at admits
        cases admits
      | scalar => cases admits

/-- A property weighs less than its owner, unless it is an array that is entered by reference. -/
theorem Firm.weight_lt_of_prop (firm : g.Firm d) (child : (g.node p).children[place]? = some c)
    {name : String} {schema fragment : Json} {required : Bool} {s : Seed}
    (here : (g.node p).propAt? place = some (name, schema)) (decides : d.Decides schema fragment)
    (kind : s.kind = .property (Build.propShapeOf (Shape.ofSchema fragment)) required)
    (from_ : s.schema = fragment) (stems : (g.node c).StemsFrom s) :
    g.weight d c < g.weight d p ∨ ∃ pointer, g.hopAt? c = some pointer := by
  have smaller := size_lt_of_propAt? here
  have source : g.sourceOf? c = some schema := by
    rw [firm.forest.sourceOf?_of_child child, here]
    rfl
  have size : g.sourceSize c = schema.size := by
    rw [sourceSize, source]
    rfl
  have large : g.weight d p = 2 * (g.node p).schema.size := by
    have owns := Node.isOwner_of_propAt? here
    rw [weight]
    cases kind : (g.node p).kind <;> rw [kind] at owns <;> try cases owns
    · rfl
    · next shape _ =>
      cases shape <;> first | rfl | cases owns
  rw [large]
  rcases stems.kind with ⟨turns, -⟩ | ⟨circular, -⟩
  · obtain ⟨shape, required', kind'⟩ : ∃ shape required,
      (g.node c).kind = .property shape required := by
      refine Kind.eq_property_of_isProperty ?_
      rw [turns.isProperty, kind]
      rfl
    rw [weight, kind', size]
    cases shape with
    | scalar | circular | object | enum | composed =>
      left
      simp only [Kind.weight]
      omega
    | array =>
      cases ref : schema.ref? with
      | some pointer =>
        refine .inr ⟨pointer, hopAt?_eq_some.mpr ⟨⟨required', kind'⟩, ?_⟩⟩
        rw [pointerAt?, source, Option.bind_some, ref]
      | none =>
        left
        rw [Document.Decides, ref] at decides
        rw [stems.schema, from_, decides]
        simp only [Kind.weight]
        omega
  · left
    rw [weight, Kind.weight_of_circular circular]
    omega

/-- Each step down uses up weight, unless it enters a reference or an array by reference. -/
theorem Firm.weight_lt (firm : g.Firm d) (child : c ∈ (g.node p).children) :
    g.weight d c < g.weight d p ∨ (∃ pointer, (g.node c).kind = .reference pointer) ∨
      ∃ pointer, g.hopAt? c = some pointer := by
  have admits := firm.forest.admits child
  obtain ⟨place, at_⟩ := List.mem_iff_getElem?.mp child
  cases firm.derived.child at_ with
  | part tag =>
    left
    have lower : ∀ k : Kind, k.tag = .operation → k.admits (g.node c).kind = true →
        (g.node c).kind.weight d.bound (g.node c).schema.size (g.sourceSize c) <
          k.weight d.bound (g.node p).schema.size (g.sourceSize p) := by
      intro k tag admits
      cases k <;> cases tag
      cases kind : (g.node c).kind <;> rw [kind] at admits <;>
        first | exact Nat.lt_succ_self _ | cases admits
    exact lower _ tag admits
  | schema holds made stems => exact (firm.weight_lt_of_holds child holds made stems).imp_right .inl
  | prop here decides kind _ _ from_ _ stems =>
    exact (firm.weight_lt_of_prop at_ here decides kind from_ stems).imp_right .inr
  | closing owner bare =>
    left
    have full := (g.node p).schema.size_pos
    rcases owner with array | circular
    · have heavy : g.weight d p = 2 * (g.node p).schema.size := by
        rw [weight]
        cases kind : (g.node p).kind <;> rw [kind] at array <;> try cases array
        · rfl
        · next shape _ =>
          cases shape <;> first | rfl | cases array
      have light : g.weight d c ≤ 1 := Kind.weight_of_isBare bare
      omega
    · have tag : (g.node c).kind.tag = .circular := by
        cases kind : (g.node p).kind <;> rw [kind] at circular admits <;> try cases circular
        · cases admits
        · next shape _ =>
          cases shape <;> first | exact beq_iff_eq.mp admits | cases circular
      rw [weight, Kind.weight_of_circular tag]
      exact Kind.weight_pos admits full

end Graph

end RestGraph
