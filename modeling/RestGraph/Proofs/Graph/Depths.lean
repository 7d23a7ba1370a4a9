import RestGraph.Proofs.Document.Unrolling
import RestGraph.Proofs.Graph.Shrinking

/-!
# Depths

How far a way down can lead. On one way references differ from each other, between two of them the
arrays that were entered by reference differ too as long as none of them unrolls, and between two of
these fragments shrink.
-/

namespace RestGraph

variable {d : Document}

namespace Graph

variable {g : Graph} {i p c place : Nat} {j : Json}

/-! ## Arrays entered again -/

/-- The node was made from the fragment; a property before its references were followed. -/
def Stands (g : Graph) (i : Nat) (x : Json) : Prop :=
  (g.node i).isProperty = true ∧ g.sourceOf? i = some x ∨
    (g.node i).kind.isSchema = true ∧ (g.node i).schema = x

theorem Stands.eq_schema {x : Json} (stands : g.Stands i x)
    (schema : (g.node i).kind.isSchema = true) : (g.node i).schema = x := by
  rcases stands with ⟨prop, -⟩ | ⟨-, same⟩
  · exact absurd (prop.symm.trans (Kind.not_isProperty_of_isSchema schema)) Bool.noConfusion
  · exact same

theorem Stands.source {x : Json} (stands : g.Stands i x) (prop : (g.node i).isProperty = true) :
    g.sourceOf? i = some x := by
  rcases stands with ⟨-, source⟩ | ⟨schema, -⟩
  · exact source
  · exact absurd (prop.symm.trans (Kind.not_isProperty_of_isSchema schema)) Bool.noConfusion

/-- The reference that a reference node enters. -/
def refAt? (g : Graph) (i : Nat) : Option String :=
  match (g.node i).kind with
  | .reference pointer => some pointer
  | _ => none

@[simp] theorem refAt?_eq_some {pointer : String} :
    g.refAt? i = some pointer ↔ (g.node i).kind = .reference pointer := by
  unfold refAt?
  split
  · next kind => rw [kind, Option.some.injEq, Kind.reference.injEq]
  · next other => exact iff_of_false (fun none => by cases none) (other pointer)

/-- An array property was made from an array, and from the references to it. -/
theorem Firm.array_of_prop (firm : g.Firm d) {required : Bool}
    (kind : (g.node p).kind = .property .array required) :
    ∃ x, g.sourceOf? p = some x ∧ d.Decides x (g.node p).schema ∧
      Shape.ofSchema (g.node p).schema = .array := by
  have inside : p < g.size := lt_size_of_ne fun nowhere => by
    rw [nowhere] at kind
    cases kind
  have open_ : ¬(g.node p).kind.IsBare := Kind.not_isBare_of_isOwner (by rw [kind]; rfl)
  obtain ⟨q, _, _, _, parent, here, decides, made⟩ :=
    firm.derived.declared_of_isProperty firm.forest inside (by rw [kind]; rfl) open_
  have place := List.getElem?_idxOf (firm.forest.child parent)
  refine ⟨_, by rw [firm.forest.sourceOf?_of_child place, here]; rfl, decides, ?_⟩
  rw [kind, Kind.property.injEq] at made
  have shape := made.1.symm
  unfold Build.propShapeOf at shape
  split at shape <;> first | assumption | cases shape

/-- What a schema node that is no reference holds for its children stands inline in its fragment. -/
theorem mem_inlineBelow {n : Node}
    (made : Build.kindOfShape? (Shape.ofSchema n.schema) = some n.kind)
    (here : d.fragmentAt? n place = some j) : j ∈ inlineBelow n.schema := by
  unfold inlineBelow
  cases shape : Shape.ofSchema n.schema <;> rw [shape] at made <;> cases made' : n.kind <;>
    rw [made'] at made <;> cases made <;> rw [Document.fragmentAt?, made'] at here
  case array =>
    have here : itemsOf? n.schema = some j := here
    simp only [here]
    exact List.mem_singleton_self j
  case composed | union => exact List.mem_of_getElem? here
  all_goals cases here

/-- How what a child was made from comes from what its parent was made from. -/
inductive Descends (d : Document) (g : Graph) (p c : Nat) (x : Json) : Json → Prop
  /-- The node that a property wraps. -/
  | wrapped (plain : (g.node c).isProperty = false) : Descends d g p c x x
  | inline {y : Json} (plain : (g.node c).isProperty = false) (below : y ∈ inlineBelow x) :
    Descends d g p c x y
  | field {y : Json} (crossing : crosses x = true) (below : y ∈ inlineBelow x) :
    Descends d g p c x y
  | element {j y : Json} (prop : (g.node p).isProperty = true) (decides : d.Decides x j)
    (array : Shape.ofSchema j = .array) (items : itemsOf? j = some y) : Descends d g p c x y

/-- Where no object and no composition is crossed, elements stand below elements. -/
theorem Descends.reaches {P : String} {crossed : Bool} {x y : Json}
    (descends : g.Descends d p c x y)
    (reaches : d.Reaches P crossed x) : ∃ crossed', d.Reaches P crossed' y ∧ (crossed' = false →
      crossed = false ∧ ((g.node c).isProperty = true → (g.node p).isProperty = true)) := by
  cases descends with
  | wrapped plain =>
    exact ⟨_, reaches, fun none => ⟨none, fun prop =>
      absurd (plain.symm.trans prop) Bool.noConfusion⟩⟩
  | inline plain below =>
    exact ⟨_, reaches.inline below, fun none => ⟨(Bool.or_eq_false_iff.mp none).1, fun prop =>
      absurd (plain.symm.trans prop) Bool.noConfusion⟩⟩
  | field crossing below =>
    refine ⟨_, reaches.inline below, fun none => ?_⟩
    rw [crossing, Bool.or_true] at none
    cases none
  | element prop decides array items =>
    exact ⟨_, reaches.element decides array items, fun none => ⟨none, fun _ => prop⟩⟩

/-- A schema node that is no reference is of the kind its own fragment has. -/
theorem Firm.kind_of_inline (firm : g.Firm d) (child : c ∈ (g.node p).children)
    (open_ : ¬(g.node c).kind.IsBare) (inline : g.refAt? p = none)
    (schema : (g.node p).kind.isSchema = true) :
    Build.kindOfShape? (Shape.ofSchema (g.node p).schema) = some (g.node p).kind := by
  have bare := firm.forest.open_of_child child open_
  refine (firm.derived.shape firm.forest (lt_size_of_child child) schema bare).resolve_left ?_
  rintro ⟨pointer, -, kind⟩
  rw [refAt?_eq_some.mpr kind] at inline
  cases inline

/-- A property stands below the object that declares it, or below the array property whose elements
it describes. -/
theorem Firm.descends_property (firm : g.Firm d) {x y : Json} {name : String}
    (here : (g.node p).propAt? place = some (name, y)) (stands : g.Stands p x)
    (made : (g.node p).kind.isSchema = true →
      Build.kindOfShape? (Shape.ofSchema (g.node p).schema) = some (g.node p).kind) :
    g.Descends d p c x y := by
  have owner := Node.isOwner_of_propAt? here
  cases kind : (g.node p).kind with
  | object synthetic =>
    have schema : (g.node p).kind.isSchema = true := by rw [kind]; rfl
    have shape := made schema
    rw [Node.propAt?, kind] at here
    rw [stands.eq_schema schema, kind] at shape
    rw [stands.eq_schema schema] at here
    have object : Shape.ofSchema x = .object synthetic := by
      cases shape' : Shape.ofSchema x <;> rw [shape'] at shape <;> cases shape
      rfl
    refine .field (by rw [crosses, object]) ?_
    rw [inlineBelow, object]
    exact List.mem_map_of_mem (List.mem_of_getElem? here)
  | property shape required =>
    rw [kind] at owner
    cases shape <;> try cases owner
    obtain ⟨source, found, decides, array⟩ := firm.array_of_prop kind
    have prop : (g.node p).isProperty = true := by rw [Node.isProperty, kind]; rfl
    rw [stands.source prop] at found
    cases found
    rw [Node.propAt?, kind] at here
    obtain ⟨items, elements, same⟩ := Option.map_eq_some_iff.mp here
    cases same
    exact .element prop decides array elements
  | _ =>
    rw [kind] at owner
    cases owner

/-- Below a node that is no reference, a child descends in the fragment. -/
theorem Firm.descends (firm : g.Firm d) {x : Json} (child : c ∈ (g.node p).children)
    (open_ : ¬(g.node c).kind.IsBare) (stands : g.Stands p x) (inline : g.refAt? p = none) :
    ∃ y, g.Stands c y ∧ g.Descends d p c x y := by
  have place := List.getElem?_idxOf child
  have made := firm.kind_of_inline child open_ inline
  cases firm.derived.child place with
  | part tag =>
    exfalso
    rcases stands with ⟨prop, -⟩ | ⟨schema, -⟩
    · rw [Node.isProperty, Kind.isProperty, tag] at prop
      cases prop
    · cases kind : (g.node p).kind <;> rw [kind] at tag schema <;> cases tag
      cases schema
  | @schema f s holds seed stems =>
    have schema := stems.isSchema (Node.seedBelow?_isSchema seed)
    have plain : (g.node c).isProperty = false := Kind.not_isProperty_of_isSchema schema
    refine ⟨f, .inr ⟨schema, stems.schema.trans (Node.seedBelow?_spec seed).1⟩, ?_⟩
    cases holds with
    | own here =>
      have schema : (g.node p).kind.isSchema = true := by
        rcases stands with ⟨prop, -⟩ | ⟨schema, -⟩
        · obtain ⟨shape, required, kind⟩ := Kind.eq_property_of_isProperty prop
          rw [Document.fragmentAt?, kind] at here
          cases here
        · exact schema
      have below := mem_inlineBelow (made schema) here
      rw [stands.eq_schema schema] at below
      exact .inline plain below
    | @wrapped owner k name _ above here =>
      have source := stands.source (firm.forest.isProperty_of_propAt? above here)
      rw [firm.forest.sourceOf?_of_child above, here] at source
      cases source
      exact .wrapped plain
  | @prop name schema _ _ _ here decides _ _ _ _ _ stems =>
    refine ⟨schema, .inl ⟨firm.forest.isProperty_of_propAt? place here, ?_⟩,
      firm.descends_property here stands made⟩
    rw [firm.forest.sourceOf?_of_child place, here]
    rfl
  | closing _ bare => exact absurd bare open_

/-- The nodes above a node up to the next reference node. -/
def stretchAbove (g : Graph) (i : Nat) : List Nat :=
  (g.ancestors i).takeWhile fun a => (g.refAt? a).isNone

/-- Below an array that was entered by reference, until the next reference node, the way leads
through the elements of the array component. -/
theorem Firm.reaches_below (firm : g.Firm d) {P : String} {b : Nat} (hop : g.hopAt? b = some P)
    (above : b ∈ g.stretchAbove i) (open_ : ¬(g.node i).kind.IsBare) :
    ∃ crossed x, g.Stands i x ∧ d.Reaches P crossed x ∧ (crossed = false →
      (g.node i).isProperty = true → ∃ p, i ∈ (g.node p).children ∧ b ∈ g.elementsAbove p) := by
  obtain ⟨⟨required, kind⟩, at_⟩ := hopAt?_eq_some.mp hop
  have isProperty : (g.node b).isProperty = true := by rw [Node.isProperty, kind]; rfl
  induction i using Nat.strongRecOn with
  | ind i ih =>
    have high : b ∈ g.ancestors i := (List.takeWhile_sublist _).subset above
    obtain ⟨p, parent⟩ : ∃ p, (g.node i).parent = some p := by
      cases parent : (g.node i).parent with
      | none =>
        rw [ancestors_of_root parent] at high
        cases high
      | some p => exact ⟨p, rfl⟩
    have child := firm.forest.child parent
    rw [stretchAbove, firm.forest.ancestors_of_child child, List.takeWhile_cons] at above
    split at above
    case isFalse => cases above
    next inline =>
    have inline := Option.isNone_iff_eq_none.mp inline
    rcases List.mem_cons.mp above with rfl | above
    · -- the first step leads to the items of the array
      obtain ⟨source, found, -⟩ := firm.array_of_prop kind
      have ref : source.ref? = some P := by rwa [pointerAt?, found, Option.bind_some] at at_
      obtain ⟨y, stands, descends⟩ := firm.descends child open_ (.inl ⟨isProperty, found⟩) inline
      have admits := firm.forest.admits child
      rw [kind] at admits
      have none : inlineBelow source = [] := by rw [inlineBelow, Shape.ofSchema, ref]
      cases descends with
      | wrapped plain | inline plain => exact absurd (plain.symm.trans admits) Bool.noConfusion
      | field _ below =>
        rw [none] at below
        cases below
      | element _ decides array items =>
        rcases decides.eq_or_target with ⟨bare, -⟩ | ⟨Q, ref', target⟩
        · rw [ref] at bare
          cases bare
        · rw [ref] at ref'
          cases ref'
          refine ⟨false, y, stands, .start ⟨_, target, array, items⟩, fun _ _ => ⟨b, child, ?_⟩⟩
          rw [elementsAbove, List.takeWhile_cons, isProperty]
          exact List.mem_cons_self
    · obtain ⟨crossed, x, stands, reaches, chain⟩ := ih p (firm.forest.parent_lt parent) above
        (firm.forest.open_of_child child open_)
      obtain ⟨y, below, descends⟩ := firm.descends child open_ stands inline
      obtain ⟨crossed', next, back⟩ := descends.reaches reaches
      refine ⟨crossed', y, below, next, fun none prop => ⟨p, child, ?_⟩⟩
      obtain ⟨none, up⟩ := back none
      obtain ⟨q, above, element⟩ := chain none (up prop)
      rw [firm.forest.elementsAbove_of_child above (up prop)]
      exact List.mem_cons_of_mem p element

/-- Unless an array component unrolls, it is entered once until the next reference node. -/
theorem Firm.hopAt?_ne (firm : g.Firm d) {P : String} (rolled : ¬d.Unrolls P) {b : Nat}
    (hop : g.hopAt? b = some P) (above : b ∈ g.stretchAbove i) : g.hopAt? i ≠ some P := by
  intro again
  obtain ⟨⟨required, kind⟩, at_⟩ := hopAt?_eq_some.mp again
  have isProperty : (g.node i).isProperty = true := by rw [Node.isProperty, kind]; rfl
  have open_ : ¬(g.node i).kind.IsBare := Kind.not_isBare_of_isOwner (by rw [kind]; rfl)
  obtain ⟨crossed, x, stands, reaches, chain⟩ := firm.reaches_below hop above open_
  cases crossed with
  | false =>
    obtain ⟨p, child, element⟩ := chain rfl isProperty
    exact firm.spaced child again b element (hopAt?_eq_some.mp hop).2
  | true =>
    rw [pointerAt?, stands.source isProperty, Option.bind_some] at at_
    exact rolled ⟨x, reaches, at_⟩

/-! ## How long a way is -/

/-- The source of a property stands above it or inside the node above it. -/
theorem Firm.size_le_of_sourceOf? (firm : g.Firm d) {x : Json} (open_ : ¬(g.node i).kind.IsBare)
    (source : g.sourceOf? i = some x) : x.size ≤ d.bound := by
  obtain ⟨p, parent, here⟩ := Option.bind_eq_some_iff.mp source
  obtain ⟨⟨name, _⟩, found, rfl⟩ := Option.map_eq_some_iff.mp here
  have child := firm.forest.child parent
  have bare := firm.forest.open_of_child child open_
  exact (size_lt_of_propAt? found).le.trans
    (firm.derived.size_le firm.forest bare (lt_size_of_child child)).1

theorem Firm.weight_le (firm : g.Firm d) (inside : i < g.size) :
    g.weight d i ≤ 2 * d.bound + 5 := by
  by_cases bare : (g.node i).kind.IsBare
  · exact (Kind.weight_of_isBare bare).trans (by omega)
  · refine Kind.weight_le (firm.derived.size_le firm.forest bare inside).1 ?_
    rw [sourceSize]
    cases source : g.sourceOf? i with
    | none => exact Nat.zero_le _
    | some x => exact firm.size_le_of_sourceOf? bare source

theorem Firm.discriminant_of_reference (firm : g.Firm d) {pointer : String}
    (kind : (g.node i).kind = .reference pointer) : (g.node i).discriminant = pointer := by
  have inside : i < g.size := lt_size_of_not_array (by rw [kind]; rfl)
  have open_ : ¬(g.node i).kind.IsBare := kind ▸ Kind.not_isBare_reference pointer
  obtain ⟨_, _, _, seed, stems⟩ :=
    firm.derived.seed_of_isSchema firm.forest inside (by rw [kind]; rfl) open_
  obtain ⟨same, disc⟩ := stems.eq_kind open_
  obtain ⟨-, -, ⟨target, -, kind', disc'⟩ | ⟨kind', -⟩⟩ := Node.seedBelow?_spec seed
  · rw [same, kind', Kind.reference.injEq] at kind
    rw [disc, disc', kind]
  · rw [← same, kind] at kind'
    unfold Build.kindOfShape? at kind'
    split at kind' <;> cases kind'

/-- A node and all above it, nearest first. -/
def way (g : Graph) (i : Nat) : List Nat := i :: g.ancestors i

def refsOn (g : Graph) (i : Nat) : List String := (g.way i).filterMap g.refAt?

/-- The arrays that were entered by reference on the way up to the next reference node. -/
def hopsOn (g : Graph) (i : Nat) : List String :=
  ((g.way i).takeWhile fun a => (g.refAt? a).isNone).filterMap g.hopAt?

variable {P Q : String}

/-- The way to a child is the way to its parent with one node more. -/
theorem Forest.way_of_child (forest : g.Forest) (child : c ∈ (g.node p).children) :
    g.way c = c :: g.way p := by
  rw [way, way, forest.ancestors_of_child child]

/-- On the way to a child are the references on the way to its parent, and perhaps its own. -/
theorem Forest.refsOn_of_child (forest : g.Forest) (child : c ∈ (g.node p).children) :
    g.refsOn c = (g.refAt? c).toList ++ g.refsOn p := by
  rw [refsOn, forest.way_of_child child, List.filterMap_cons]
  cases g.refAt? c <;> rfl

theorem hopsOn_of_ref (ref : g.refAt? i = some P) : g.hopsOn i = [] := by
  rw [hopsOn, way, List.takeWhile_cons, ref]
  rfl

/-- On the way to a child are the hops on the way to its parent, and perhaps its own. -/
theorem Forest.hopsOn_of_child (forest : g.Forest) (child : c ∈ (g.node p).children)
    (inline : g.refAt? c = none) : g.hopsOn c = (g.hopAt? c).toList ++ g.hopsOn p := by
  rw [hopsOn, forest.way_of_child child, List.takeWhile_cons, inline]
  change (c :: _).filterMap g.hopAt? = _
  rw [List.filterMap_cons]
  cases g.hopAt? c <;> rfl

@[simp]
theorem mem_refsOn : P ∈ g.refsOn i ↔ ∃ a ∈ g.way i, g.refAt? a = some P := List.mem_filterMap

/-- What holds of a node without a parent, and of a child when it holds of its parent, holds of all
nodes of a forest. -/
theorem Forest.inductionOn (forest : g.Forest) {motive : Nat → Prop}
    (root : ∀ {i}, (g.node i).parent = none → motive i)
    (child : ∀ {p c}, c ∈ (g.node p).children → motive p → motive c) (i : Nat) : motive i := by
  induction i using Nat.strongRecOn with
  | ind i ih =>
    cases parent : (g.node i).parent with
    | none => exact root parent
    | some p => exact child (forest.child parent) (ih p (forest.parent_lt parent))

/-- Operations stand alone. -/
theorem Firm.not_reference_of_root (firm : g.Firm d) (top : (g.node i).parent = none) :
    g.refAt? i = none ∧ g.hopAt? i = none := by
  by_cases inside : i < g.size
  · have tag := (firm.derived.root inside top).tag
    rw [refAt?, hopAt?]
    cases kind : (g.node i).kind <;> rw [kind] at tag <;> cases tag
    exact ⟨rfl, rfl⟩
  · rw [refAt?, hopAt?, node_of_size_le (Nat.le_of_not_lt inside)]
    exact ⟨rfl, rfl⟩

theorem Firm.on_of_root (firm : g.Firm d) (top : (g.node i).parent = none) :
    g.refsOn i = [] ∧ g.hopsOn i = [] := by
  obtain ⟨ref, hop⟩ := firm.not_reference_of_root top
  have alone : g.way i = [i] := by rw [way, ancestors_of_root top]
  constructor
  · rw [refsOn, alone, List.filterMap_cons, ref]
    rfl
  · rw [hopsOn, alone, List.takeWhile_cons, ref]
    change [i].filterMap g.hopAt? = _
    rw [List.filterMap_cons, hop]
    rfl

/-- On the way up references differ from each other. -/
theorem Firm.nodup_refsOn (firm : g.Firm d) (i : Nat) : (g.refsOn i).Nodup := by
  refine firm.forest.inductionOn (motive := fun i => (g.refsOn i).Nodup) (fun top => ?_)
    (fun {p c} child ih => ?_) i
  · rw [(firm.on_of_root top).1]
    exact .nil
  · rw [firm.forest.refsOn_of_child child]
    cases here : g.refAt? c with
    | none => exact ih
    | some P =>
      refine List.nodup_cons.mpr ⟨fun mem => ?_, ih⟩
      obtain ⟨a, above, there⟩ := mem_refsOn.mp mem
      have kind := refAt?_eq_some.mp here
      have kind' := refAt?_eq_some.mp there
      have above : a ∈ g.ancestors c := firm.forest.ancestors_of_child child ▸ above
      have same : c = a := firm.lineal.eq_of_id (firm.forest.below child).2 List.mem_cons_self
        (List.mem_cons_of_mem c above) (by rw [Node.isProperty, kind]; rfl)
        (by rw [Node.isProperty, kind']; rfl) (by
          rw [idAt, idAt, Node.id, Node.id, firm.discriminant_of_reference kind,
            firm.discriminant_of_reference kind', kind, kind'])
      exact absurd (lt_of_mem_ancestors above) (by omega)

/-- Up to the next reference node arrays that were entered by reference differ from each other,
unless one of them unrolls. -/
theorem Firm.nodup_hopsOn (firm : g.Firm d) (rolled : ∀ P, ¬d.Unrolls P) (i : Nat) :
    (g.hopsOn i).Nodup := by
  refine firm.forest.inductionOn (motive := fun i => (g.hopsOn i).Nodup) (fun top => ?_)
    (fun {p c} child ih => ?_) i
  · rw [(firm.on_of_root top).2]
    exact .nil
  · cases ref : g.refAt? c with
    | some P =>
      rw [hopsOn_of_ref ref]
      exact .nil
    | none =>
      rw [firm.forest.hopsOn_of_child child ref]
      cases hop : g.hopAt? c with
      | none => exact ih
      | some P =>
        refine List.nodup_cons.mpr ⟨fun mem => ?_, ih⟩
        obtain ⟨b, above, there⟩ := List.mem_filterMap.mp mem
        rw [way, ← firm.forest.ancestors_of_child child] at above
        exact firm.hopAt?_ne (rolled P) there above hop

/-- All references stand in the description. -/
theorem Firm.mem_pointers (firm : g.Firm d) (open_ : ¬(g.node i).kind.IsBare)
    (inside : i < g.size) {x : Json} (stands : g.Stands i x) (ref : x.ref? = some P) :
    P ∈ d.root.pointers := by
  have passes : ∀ {i}, ¬(g.node i).kind.IsBare → i < g.size →
      (g.node i).schema.everywhere (Json.isKnown d.root.pointers) = true := fun open_ inside =>
    (firm.derived.passes firm.forest (Json.passesMade_isKnown _)
      (Json.everywhere_isKnown.mpr (List.Subset.refl _)) open_ inside).schema
  have known : x.everywhere (Json.isKnown d.root.pointers) = true := by
    rcases stands with ⟨-, source⟩ | ⟨-, rfl⟩
    · obtain ⟨p, parent, here⟩ := Option.bind_eq_some_iff.mp source
      obtain ⟨⟨name, _⟩, found, rfl⟩ := Option.map_eq_some_iff.mp here
      have child := firm.forest.child parent
      exact Node.propAt?_passes
        (passes (firm.forest.open_of_child child open_) (lt_size_of_child child)) found
    · exact passes open_ inside
  exact Json.everywhere_isKnown.mp known (Json.ref?_mem_pointers ref)

theorem Firm.refsOn_subset (firm : g.Firm d) (i : Nat) : g.refsOn i ⊆ d.root.pointers := by
  intro P mem
  obtain ⟨a, -, ref⟩ := mem_refsOn.mp mem
  have kind := refAt?_eq_some.mp ref
  exact firm.mem_pointers (kind ▸ Kind.not_isBare_reference P)
    (lt_size_of_not_array (by rw [kind]; rfl)) (.inr ⟨by rw [kind]; rfl, rfl⟩)
    (firm.derived.ref?_of_reference firm.forest kind)

theorem Firm.hopsOn_subset (firm : g.Firm d) (i : Nat) : g.hopsOn i ⊆ d.root.pointers := by
  intro P mem
  obtain ⟨a, -, hop⟩ := List.mem_filterMap.mp mem
  obtain ⟨⟨required, kind⟩, at_⟩ := hopAt?_eq_some.mp hop
  obtain ⟨x, source, ref⟩ := Option.bind_eq_some_iff.mp at_
  refine firm.mem_pointers (Kind.not_isBare_of_isOwner (by rw [kind]; rfl))
    (lt_size_of_ne fun nowhere => ?_) (.inl ⟨by rw [Node.isProperty, kind]; rfl, source⟩) ref
  rw [nowhere] at kind
  cases kind

end Graph

namespace Document

/-- How far a way can lead between two references. -/
def stride (d : Document) : Nat := 2 * d.bound + 6

/-- No way is longer. -/
def ceiling (d : Document) : Nat :=
  (d.root.pointers.length + 1) * ((d.root.pointers.length + 1) * d.stride)

end Document

namespace Graph

variable {g : Graph} {p c : Nat}

/-- How far a way can still lead below a node: references that are left count most, then arrays that
can be entered by reference, then fragments. -/
def leeway (d : Document) (g : Graph) (i : Nat) : Nat :=
  (d.root.pointers.length - (g.refsOn i).length) * ((d.root.pointers.length + 1) * d.stride) +
    ((d.root.pointers.length - (g.hopsOn i).length) * d.stride + g.weight d i)

/-- **Every step down loses leeway, where no reference unrolls.** -/
theorem Firm.leeway_lt (firm : g.Firm d) (rolled : ∀ P, ¬d.Unrolls P)
    (child : c ∈ (g.node p).children) : g.leeway d c < g.leeway d p := by
  have few := length_le_of_nodup_of_subset (firm.nodup_refsOn c) (firm.refsOn_subset c)
  have few' := length_le_of_nodup_of_subset (firm.nodup_hopsOn rolled c) (firm.hopsOn_subset c)
  have light := firm.weight_le (firm.forest.below child).2
  have refs := firm.forest.refsOn_of_child child
  have stride : d.stride = 2 * d.bound + 6 := rfl
  unfold leeway
  cases ref : g.refAt? c with
  | some P =>
    rw [ref] at refs
    rw [hopsOn_of_ref ref]
    rw [refs] at few ⊢
    simp only [Option.toList_some, List.cons_append, List.nil_append, List.length_cons,
      List.length_nil, Nat.sub_zero] at few ⊢
    obtain ⟨k, left⟩ := Nat.exists_eq_add_of_le few
    have left' : d.root.pointers.length - (g.refsOn p).length = k + 1 := by omega
    have left'' : d.root.pointers.length - ((g.refsOn p).length + 1) = k := by omega
    rw [left', left'', Nat.succ_mul k, Nat.succ_mul d.root.pointers.length]
    omega
  | none =>
    have hops := firm.forest.hopsOn_of_child child ref
    rw [ref] at refs
    rw [refs]
    simp only [Option.toList_none, List.nil_append]
    cases hop : g.hopAt? c with
    | some P =>
      rw [hop] at hops
      rw [hops] at few' ⊢
      simp only [Option.toList_some, List.cons_append, List.nil_append, List.length_cons]
        at few' ⊢
      obtain ⟨k, left⟩ := Nat.exists_eq_add_of_le few'
      have left' : d.root.pointers.length - (g.hopsOn p).length = k + 1 := by omega
      have left'' : d.root.pointers.length - ((g.hopsOn p).length + 1) = k := by omega
      rw [left', left'', Nat.succ_mul k d.stride]
      omega
    | none =>
      rw [hop] at hops
      rw [hops]
      simp only [Option.toList_none, List.nil_append]
      rcases firm.weight_lt child with less | ⟨P, kind⟩ | ⟨P, kind⟩
      · omega
      · rw [refAt?_eq_some.mpr kind] at ref
        cases ref
      · rw [kind] at hop
        cases hop

/-- The way up from any node is short. -/
theorem Firm.length_way_le (firm : g.Firm d) (rolled : ∀ P, ¬d.Unrolls P) (i : Nat) :
    (g.way i).length ≤ d.ceiling := by
  suffices (g.way i).length + g.leeway d i ≤ d.ceiling by omega
  refine firm.forest.inductionOn (motive := fun i => (g.way i).length + g.leeway d i ≤ d.ceiling)
    (fun {i} top => ?_) (fun {p c} child ih => ?_) i
  · obtain ⟨refs, hops⟩ := firm.on_of_root top
    have light : g.weight d i ≤ 2 * d.bound + 5 := by
      by_cases inside : i < g.size
      · exact firm.weight_le inside
      · rw [weight, node_of_size_le (Nat.le_of_not_lt inside)]
        have small : (Kind.array.weight d.bound Json.null.size (g.sourceSize i)) = 2 := rfl
        exact small.le.trans (by omega)
    have stride : d.stride = 2 * d.bound + 6 := rfl
    rw [leeway, refs, hops, way, ancestors_of_root top, Document.ceiling,
      Nat.succ_mul d.root.pointers.length d.stride, Nat.succ_mul d.root.pointers.length]
    simp only [List.length_cons, List.length_nil, Nat.sub_zero]
    omega
  · have less := firm.leeway_lt rolled child
    rw [firm.forest.way_of_child child, List.length_cons]
    omega

end Graph

end RestGraph
