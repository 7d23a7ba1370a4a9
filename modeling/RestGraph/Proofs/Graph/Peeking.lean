import RestGraph.Proofs.Document.Following
import RestGraph.Proofs.Graph.Drawn
import RestGraph.Proofs.Graph.Elements
import RestGraph.Proofs.Graph.Ids

/-!
# Peeking

The shape of a property is read off the end of its references before any node stands for them. The
nodes made later lead there: a property that was found to be an enum ends at one, and any other that
wraps something ends at what its shape says unless a cycle is closed on the way.
-/

namespace RestGraph

variable {d : Document} {g : Graph} {a c i p q place : Nat} {k k' : Nat} {j e e' : Json}

/-! ## Nodes for fragments -/

namespace Kind

variable {k : Kind} {pointer : String}

theorem tag_of_label_enum (label : k.label = "enum") : k.tag = .enum := by
  cases k with
  | enum => rfl
  | operation method => cases method <;> simp [Kind.label, Method.key] at label
  | property shape => cases shape <;> simp [Kind.label, PropShape.label] at label
  | _ => simp [Kind.label] at label

theorem eq_reference_of_label (label : k.label = "ref") : ∃ pointer, k = .reference pointer := by
  cases k with
  | reference pointer => exact ⟨pointer, rfl⟩
  | operation method => cases method <;> simp [Kind.label, Method.key] at label
  | property shape => cases shape <;> simp [Kind.label, PropShape.label] at label
  | _ => simp [Kind.label] at label

/-- No node for a fragment that is no reference leads on. -/
theorem not_isWrapper_of_shape {shape : Shape} (made : Build.kindOfShape? shape = some k) :
    k.isWrapper = false := by
  unfold Build.kindOfShape? at made
  split at made <;> cases made <;> rfl

@[simp] theorem not_isWrapper_of_circular (circular : k.tag = .circular) : k.isWrapper = false := by
  cases k <;> first | rfl | cases circular

end Kind

namespace Build

variable {k : Kind} {shape : Shape}

theorem eq_enum_of_propShapeOf (same : propShapeOf shape = .enum) :
    ∃ values, shape = .enum values := by
  unfold propShapeOf at same
  split at same <;> first | exact ⟨_, rfl⟩ | cases same

/-- Of the shapes that are wrapped, an enum is none of those with fields. -/
theorem element_of_shape (made : kindOfShape? shape = some k)
    (wraps : (propShapeOf shape).isWrapper = true) (open_ : propShapeOf shape ≠ .circular) :
    k.isWrapper = false ∧ k.isArray = false ∧
      (propShapeOf shape = .enum ∧ k.tag = .enum ∨
        propShapeOf shape ≠ .enum ∧ k.isStructured = true) := by
  unfold kindOfShape? at made
  unfold propShapeOf at wraps open_ ⊢
  split at made <;> cases made
  all_goals first | cases wraps | skip
  · exact ⟨rfl, rfl, .inr ⟨by decide, rfl⟩⟩
  · exact ⟨rfl, rfl, .inr ⟨by decide, rfl⟩⟩
  · next synthetic =>
    cases synthetic with
    | true => cases wraps
    | false => exact ⟨rfl, rfl, .inr ⟨by decide, rfl⟩⟩
  · exact ⟨rfl, rfl, .inl ⟨rfl, rfl⟩⟩

end Build

namespace Graph

/-- A schema holds what its own fragment says. -/
theorem Forest.fragmentAt?_of_holds (forest : g.Forest) {f : Json}
    (schema : (g.node a).kind.isSchema = true) (holds : g.Holds d a place f) :
    d.fragmentAt? (g.node a) place = some f := by
  cases holds with
  | own here => exact here
  | wrapped child here =>
    have owner := Kind.not_isOwner_of_admits (forest.admits (List.mem_of_getElem? child)) schema
    rw [Node.isOwner_of_propAt? here] at owner
    cases owner

/-- A property holds what it was made from. -/
theorem Forest.propAt?_of_holds (forest : g.Forest) {f : Json}
    (prop : (g.node a).kind.isProperty = true) (child : (g.node p).children[place]? = some a)
    {k : Nat} (holds : g.Holds d a k f) : ∃ name, (g.node p).propAt? place = some (name, f) := by
  cases holds with
  | own here =>
    obtain ⟨shape, required, kind⟩ := Kind.eq_property_of_isProperty prop
    rw [Document.fragmentAt?, kind] at here
    cases here
  | @wrapped owner place' name _ child' here =>
    have parent := forest.parent (List.mem_of_getElem? child)
    rw [forest.parent (List.mem_of_getElem? child'), Option.some.injEq] at parent
    subst parent
    have nodup : (g.node owner).children.Nodup := (forest.sorted owner).imp Nat.ne_of_lt
    have places : place' = place := (List.getElem?_inj (List.getElem?_eq_some_iff.mp child').1
      nodup).mp (child'.trans child.symm)
    exact ⟨name, places ▸ here⟩

/-- The node was made from its fragment, or closes a cycle in its place. -/
def IsMade (g : Graph) (i : Nat) : Prop :=
  ∃ n s, Node.seedBelow? n (g.node i).schema = some s ∧ (g.node i).StemsFrom s

theorem IsMade.cases (made : g.IsMade i) :
    (∃ pointer, (g.node i).schema.ref? = some pointer ∧ (g.node i).kind = .reference pointer ∧
      (g.node i).discriminant = pointer) ∨
    Build.kindOfShape? (Shape.ofSchema (g.node i).schema) = some (g.node i).kind ∨
    (g.node i).kind.tag = .circular ∧ ∃ kind discriminant,
      (g.node i).discriminant = idOf kind discriminant ∧
      (Build.kindOfShape? (Shape.ofSchema (g.node i).schema) = some kind ∨
        kind = .reference discriminant ∧ (g.node i).schema.ref? = some discriminant) := by
  obtain ⟨n, s, seed, stems⟩ := made
  have schema := Node.seedBelow?_isSchema seed
  obtain ⟨-, -, spec⟩ := Node.seedBelow?_spec seed
  rcases stems.kind with ⟨turns, same⟩ | ⟨circular, id⟩
  · rw [turns.eq_of_not_isProperty (Kind.not_isProperty_of_isSchema schema), same]
    rcases spec with ⟨pointer, shape, kind, disc⟩ | ⟨kind, -⟩
    · exact .inl ⟨pointer, Shape.ref?_of_reference shape, kind, disc⟩
    · exact .inr (.inl kind)
  · refine .inr (.inr ⟨circular, s.kind, s.discriminant, id, ?_⟩)
    rcases spec with ⟨pointer, shape, kind, disc⟩ | ⟨kind, -⟩
    · exact .inr ⟨disc ▸ kind, disc ▸ Shape.ref?_of_reference shape⟩
    · exact .inl kind

/-- What stands below a reference was made from what the reference names. -/
theorem Derived.below_reference (derived : g.Derived d) (forest : g.Forest) {pointer : String}
    (kind : (g.node p).kind = .reference pointer) (child : c ∈ (g.node p).children) :
    d.lookup? pointer = some (g.node c).schema ∧ g.IsMade c := by
  cases derived.child_of_mem child with
  | part tag =>
    rw [kind] at tag
    cases tag
  | schema holds seed stems =>
    have here := forest.fragmentAt?_of_holds (by rw [kind]; rfl) holds
    rw [Document.fragmentAt?, kind] at here
    have same := stems.schema.trans (Node.seedBelow?_spec seed).1
    exact ⟨same ▸ here, _, _, same ▸ seed, stems⟩
  | prop here =>
    rw [Node.propAt?, kind] at here
    cases here
  | closing owner =>
    rw [kind] at owner
    rcases owner with array | circular
    · cases array
    · cases circular

/-- Every reference was made from its fragment. -/
theorem Derived.isMade_reference (derived : g.Derived d) (forest : g.Forest) {pointer : String}
    (kind : (g.node i).kind = .reference pointer) : g.IsMade i := by
  have inside : i < g.size := lt_size_of_not_array (by rw [kind]; rfl)
  obtain ⟨_, _, _, seed, stems⟩ := derived.seed_of_isSchema forest inside (by rw [kind]; rfl)
    (kind ▸ Kind.not_isBare_reference pointer)
  exact ⟨_, _, stems.schema.trans (Node.seedBelow?_spec seed).1 ▸ seed, stems⟩

/-! ## Below references -/

/-- A node that leads to an enum has no property below, and the references below it are fewer. -/
theorem IsMade.below_of_enum (made : g.IsMade i) (derived : g.Derived d) (forest : g.Forest)
    (follows : d.Follows k (g.node i).schema e) {values : List String}
    (enum : Shape.ofSchema e = .enum values) (below : i ∈ g.ancestors q) :
    ∃ k' < k, d.Follows k' (g.node q).schema e ∧ g.IsMade q := by
  induction k generalizing i with
  | zero =>
    obtain ⟨c, child, -⟩ := forest.exists_child_of_mem_ancestors below
    have admits := forest.admits child
    cases follows with
    | here plain =>
      rcases made.cases with ⟨pointer, ref, -⟩ | kind | ⟨circular, -⟩
      · rw [plain] at ref
        cases ref
      · rw [enum, Build.kindOfShape?, Option.some.injEq] at kind
        rw [← kind] at admits
        cases admits
      · rw [forest.childless_of_circular circular] at child
        cases child
  | succ k ih =>
    obtain ⟨c, child, way⟩ := forest.exists_child_of_mem_ancestors below
    cases follows with
    | next ref found more =>
      rcases made.cases with ⟨pointer, ref', kind, -⟩ | kind | ⟨circular, -⟩
      · rw [ref, Option.some.injEq] at ref'
        subst ref'
        obtain ⟨found', made'⟩ := derived.below_reference forest kind child
        rw [found, Option.some.injEq] at found'
        subst found'
        rcases way with rfl | way
        · exact ⟨k, Nat.lt_succ_self k, more, made'⟩
        · obtain ⟨k', lt, follows, made⟩ := ih made' more way
          exact ⟨k', lt.trans (Nat.lt_succ_self k), follows, made⟩
      · rw [Shape.ofSchema_of_ref? ref] at kind
        cases kind
      · rw [forest.childless_of_circular circular] at child
        cases child

/-- On the way to an enum no cycle is closed. -/
theorem IsMade.not_circular (made : g.IsMade i) (derived : g.Derived d) (forest : g.Forest)
    (lineal : g.Lineal) (follows : d.Follows k (g.node i).schema e) {values : List String}
    (enum : Shape.ofSchema e = .enum values) : (g.node i).kind.tag ≠ .circular := by
  intro circular
  obtain ⟨t, kind⟩ : ∃ t, (g.node i).kind = .circular t := by
    cases kind : (g.node i).kind with
    | circular t => exact ⟨t, rfl⟩
    | _ =>
      rw [kind] at circular
      cases circular
  obtain ⟨above, -, id⟩ := lineal.closed kind
  rcases made.cases with ⟨_, -, other, -⟩ | shaped | ⟨-, kind', disc, same, seed⟩
  · rw [kind] at other
    cases other
  · rw [kind] at shaped
    unfold Build.kindOfShape? at shaped
    split at shaped <;> cases shaped
  have plain' : kind'.isProperty = false := by
    rcases seed with shaped | ⟨rfl, -⟩
    · unfold Build.kindOfShape? at shaped
      split at shaped <;> cases shaped <;> rfl
    · rfl
  -- the node that the cycle leads back to has the same label and discriminant
  have plain : (g.node t).kind.isProperty = false := by
    cases prop : (g.node t).kind.isProperty with
    | false => rfl
    | true => exact absurd (same.symm.trans id.symm) (Kind.idOf_ne_of_isProperty plain' prop)
  obtain ⟨label, names⟩ := Kind.idOf_inj plain plain' (id.trans same)
  rcases seed with shaped | ⟨rfl, ref⟩
  · cases follows with
    | here =>
      rw [enum, Build.kindOfShape?, Option.some.injEq] at shaped
      rw [← shaped] at label
      obtain ⟨c, child, -⟩ := forest.exists_child_of_mem_ancestors above
      rw [forest.childless_of_enum (Kind.tag_of_label_enum label)] at child
      cases child
    | next ref =>
      rw [Shape.ofSchema_of_ref? ref] at shaped
      cases shaped
  · obtain ⟨pointer, reference⟩ := Kind.eq_reference_of_label label
    have made' := derived.isMade_reference forest reference
    obtain rfl : pointer = disc := by
      rcases made'.cases with ⟨_, -, same', named⟩ | shaped | ⟨circular, -⟩
      · rw [reference, Kind.reference.injEq] at same'
        rw [same', ← named, names]
      · rw [reference] at shaped
        unfold Build.kindOfShape? at shaped
        split at shaped <;> cases shaped
      · rw [reference] at circular
        cases circular
    -- both were made from references to one component, so as many references follow them
    obtain ⟨n, target, rfl, found, more⟩ := follows.of_ref ref
    have again := Document.Follows.next (derived.ref?_of_reference forest reference) found more
    obtain ⟨k', lt, follows', -⟩ := made'.below_of_enum derived forest again enum above
    exact absurd (follows'.steps_unique follows) lt.ne

/-- The references below a node lead towards the end that its fragment leads to. Once they are
built, the end is as the fragment says, unless a cycle is closed. -/
theorem IsMade.targetOf (made : g.IsMade i) (derived : g.Derived d) (forest : g.Forest)
    (follows : d.Follows k (g.node i).schema e) :
    (∃ k', g.IsMade (g.targetOf i) ∧ d.Follows k' (g.node (g.targetOf i)).schema e) ∧
    ((g.node (g.targetOf i)).kind.tag = .circular ∨
      Build.kindOfShape? (Shape.ofSchema e) = some (g.node (g.targetOf i)).kind ∨
      (g.node (g.targetOf i)).children = [] ∧ (g.node (g.targetOf i)).kind.tag = .reference) := by
  induction k generalizing i with
  | zero =>
    have plain : (g.node i).schema.ref? = none ∧ (g.node i).schema = e := by
      cases follows with
      | here plain => exact ⟨plain, rfl⟩
    rcases made.cases with ⟨pointer, ref, -⟩ | kind | ⟨circular, -⟩
    · rw [plain.1] at ref
      cases ref
    · rw [targetOf_of_end (Kind.not_isWrapper_of_shape kind)]
      exact ⟨⟨0, made, follows⟩, .inr (.inl (plain.2 ▸ kind))⟩
    · rw [targetOf_of_end (Kind.not_isWrapper_of_circular circular)]
      exact ⟨⟨0, made, follows⟩, .inl circular⟩
  | succ k ih =>
    cases follows with
    | next ref found more =>
      have here := Document.Follows.next ref found more
      rcases made.cases with ⟨pointer, ref', kind, -⟩ | kind | ⟨circular, -⟩
      · rw [ref, Option.some.injEq] at ref'
        subst ref'
        have wrapper : (g.node i).kind.isWrapper = true := by rw [kind]; rfl
        cases children : (g.node i).children with
        | nil =>
          rw [targetOf_of_childless children]
          exact ⟨⟨_, made, here⟩, .inr (.inr ⟨children, by rw [kind]; rfl⟩)⟩
        | cons c rest =>
          have child : c ∈ (g.node i).children := children ▸ List.mem_cons_self
          obtain ⟨found', made'⟩ := derived.below_reference forest kind child
          rw [found, Option.some.injEq] at found'
          subst found'
          rw [targetOf_of_first wrapper children (forest.below child)]
          exact ih made' more
      · rw [Shape.ofSchema_of_ref? ref] at kind
        cases kind
      · rw [targetOf_of_end (Kind.not_isWrapper_of_circular circular)]
        exact ⟨⟨_, made, here⟩, .inl circular⟩

/-! ## Properties -/

/-- What a property wraps was made from the fragment that its shape was read off. -/
theorem Derived.isMade_of_wrapped (derived : g.Derived d) (forest : g.Forest) {shape : PropShape}
    {required : Bool} (kind : (g.node q).kind = .property shape required)
    (wraps : shape.isWrapper = true) (open_ : shape ≠ .circular) (child : c ∈ (g.node q).children) :
    g.IsMade c ∧ ∃ k e, d.Follows k (g.node c).schema e ∧
      Build.propShapeOf (Shape.ofSchema e) = shape := by
  have solid : ¬(g.node q).kind.IsBare := by
    rintro (circular | ⟨_, scalar⟩ | ⟨_, _, scalar⟩)
    · rw [kind] at circular
      cases shape <;> first | exact open_ rfl | cases circular
    · rw [kind] at scalar
      cases scalar
    · rw [kind, Kind.property.injEq] at scalar
      rw [scalar.1] at wraps
      cases wraps
  have schema : (g.node c).kind.isSchema = true := by
    have admits := forest.admits child
    rw [kind] at admits
    cases shape <;> first | exact admits | exact absurd rfl open_ | cases wraps
  have inside := lt_size_of_child child
  obtain ⟨p, name, f, _, parent, here, decides, made⟩ :=
    derived.declared_of_isProperty forest inside (by rw [kind]; rfl) solid
  rw [kind, Kind.property.injEq] at made
  have shaped := made.1.symm
  have plain : (g.node q).schema.ref? = none := by
    cases ref : (g.node q).schema.ref? with
    | none => rfl
    | some pointer =>
      rw [Shape.ofSchema_of_ref? ref] at shaped
      rw [← shaped] at wraps
      cases wraps
  cases derived.child_of_mem child with
  | part tag =>
    rw [kind] at tag
    cases tag
  | schema holds seed stems =>
    obtain ⟨_, here'⟩ := forest.propAt?_of_holds (by rw [kind]; rfl)
      (List.getElem?_idxOf (forest.child parent)) holds
    rw [here, Option.some.injEq, Prod.mk.injEq] at here'
    have same := stems.schema.trans (Node.seedBelow?_spec seed).1
    rw [← here'.2] at same seed
    obtain ⟨k, follows⟩ := decides.follows plain
    exact ⟨⟨_, _, same ▸ seed, stems⟩, k, _, same ▸ follows, shaped⟩
  | prop here =>
    rw [Node.propAt?, kind] at here
    cases shape <;> first | cases here | cases wraps
  | closing owner =>
    rw [kind] at owner
    rcases owner with array | circular
    · cases shape <;> first | exact Bool.noConfusion array | exact Bool.noConfusion wraps
    · cases shape <;> first | exact absurd rfl open_ | cases circular

/-- A property that wraps something ends at what its shape says, as far as the graph is built: an
enum at an enum, any other at a container unless a cycle is closed. -/
theorem Derived.targetOf_prop (derived : g.Derived d) (forest : g.Forest) (lineal : g.Lineal)
    {shape : PropShape} {required : Bool} (kind : (g.node q).kind = .property shape required)
    (wraps : shape.isWrapper = true) (open_ : shape ≠ .circular) :
    g.elementOf q = g.targetOf q ∧
    ((g.node (g.targetOf q)).children = [] ∧
        (g.targetOf q = q ∨ (g.node (g.targetOf q)).kind.tag = .reference) ∨
      shape = .enum ∧ (g.node (g.targetOf q)).kind.tag = .enum ∨
      shape ≠ .enum ∧ ((g.node (g.targetOf q)).kind.tag = .circular ∨
        (g.node (g.targetOf q)).kind.isStructured = true)) := by
  have wrapper : (g.node q).kind.isWrapper = true := by rw [kind]; exact wraps
  cases children : (g.node q).children with
  | nil =>
    rw [elementOf_of_childless children, targetOf_of_childless children]
    exact ⟨rfl, .inl ⟨children, .inl rfl⟩⟩
  | cons c rest =>
    have child : c ∈ (g.node q).children := children ▸ List.mem_cons_self
    obtain ⟨made, k, e, follows, shaped⟩ := derived.isMade_of_wrapped forest kind wraps open_ child
    obtain ⟨⟨k', made', follows'⟩, ends⟩ := made.targetOf derived forest follows
    rw [← elementOf_targetOf, targetOf_of_first wrapper children (forest.below child)]
    generalize g.targetOf c = t at made' follows' ends
    rcases ends with circular | known | ⟨childless, reference⟩
    · refine ⟨elementOf_of_isCircular circular, .inr (.inr ⟨fun enum => ?_, .inl circular⟩)⟩
      subst enum
      obtain ⟨values, shape⟩ := Build.eq_enum_of_propShapeOf shaped
      exact made'.not_circular derived forest lineal follows' shape circular
    · obtain ⟨leads, array, known⟩ := Build.element_of_shape known (shaped ▸ wraps) (shaped ▸ open_)
      rw [← shaped]
      exact ⟨elementOf_of_end leads array,
        .inr (known.imp id fun ⟨other, structured⟩ => ⟨other, .inr structured⟩)⟩
    · exact ⟨elementOf_of_childless childless, .inl ⟨childless, .inr reference⟩⟩

end Graph

end RestGraph
