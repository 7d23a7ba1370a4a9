import RestGraph.Proofs.Graph.Bearing
import RestGraph.Proofs.Graph.Peeking
import RestGraph.Proofs.Graph.Reached
import RestGraph.Proofs.Graph.Siblings
import RestGraph.Proofs.Schema.Agreement
import RestGraph.Proofs.Schema.Independence
import RestGraph.Proofs.Schema.Recording

/-!
# What is bound

The mapping of a response binds what was selected of it: the keys on the way down to its leaves are
those of the selected properties, as long as a way down is straight. A property that another branch
shadows is not bound, and neither is anything below a list that is a branch itself.
-/

namespace RestGraph

variable {d : Document} {r : Run} {g : Graph} {c : Collection} {a e i j m n o p q : Nat}
  {ks : List String} {f : VisibleField}

/-! ## Keys of entries -/

mutual

/-- The keys on the ways down to the leaves of an entry. -/
def Entry.leafKeys : Entry → List (List String)
  | .circular _ => []
  | .leaf _ key _ => [[key]]
  | .block _ key entries => (Entry.leafKeysOf entries).map (key :: ·)
termination_by structural e => e

def Entry.leafKeysOf : List Entry → List (List String)
  | [] => []
  | e :: rest => e.leafKeys ++ Entry.leafKeysOf rest
termination_by structural es => es

end

@[simp] theorem Entry.mem_leafKeysOf {es : List Entry} : ks ∈ Entry.leafKeysOf es ↔
    ∃ e ∈ es, ks ∈ e.leafKeys := by
  induction es with
  | nil => simp [Entry.leafKeysOf]
  | cons e rest ih => rw [Entry.leafKeysOf, List.mem_append, ih, List.exists_mem_cons_iff]

namespace Graph

/-- The keys lead from the first node down to the second. -/
inductive Keyed (g : Graph) (c : Collection) : Nat → List String → Nat → Prop
  | here (i : Nat) : Keyed g c i [] (g.elementOf i)
  | field {i e : Nat} {f : VisibleField} {ks : List String}
      (structured : (g.node (g.elementOf i)).kind.isStructured = true)
      (shown : f ∈ g.fieldsOn c .output (g.elementOf i)) (named : f.name.isSome = true)
      (more : Keyed g c f.prop ks e) : Keyed g c i (f.jsonName :: ks) e

namespace Keyed

theorem meets (keyed : g.Keyed c i ks e) : g.Meets c .output i e := by
  induction keyed with
  | here i => exact .here i
  | field structured shown named _ ih => exact .field structured shown named ih

/-- A field of the container that is reached leads one key further. -/
theorem step (keyed : g.Keyed c i ks m) (structured : (g.node m).kind.isStructured = true)
    (shown : f ∈ g.fieldsOn c .output m) (named : f.name.isSome = true) :
    g.Keyed c i (ks ++ [f.jsonName]) (g.elementOf f.prop) := by
  induction keyed with
  | here i => exact .field structured shown named (.here f.prop)
  | field structured' shown' named' _ ih =>
    exact .field structured' shown' named' (ih structured shown)

end Keyed

/-- The entries of a response are written for the fields that the selection shows. -/
theorem mem_entriesOf_selected (sound : g.Sound) {entry : Entry} :
    entry ∈ entriesOf g (some c) n ↔ ∃ f ∈ g.fieldsOn c .output n, g.Writes c .output f entry := by
  change entry ∈ entriesOf g (Side.output.selection c) n ↔ _
  exact mem_entriesOf sound

/-- The keys of the leaves are those that lead to what is neither a container nor a cycle. -/
theorem mem_leafKeysOf_iff (sound : g.Sound)
    (full : ∀ {n x}, x ∈ (g.node n).props → (g.node n).kind.isStructured = true) :
    ks ∈ Entry.leafKeysOf (entriesOf g (some c) (g.elementOf i)) ↔
      ks ≠ [] ∧ ∃ e, g.Keyed c i ks e ∧ (g.node e).kind.isStructured = false ∧
        (g.node e).kind.isCircular = false := by
  induction ks generalizing i with
  | nil =>
    refine iff_of_false (fun mem => ?_) fun absent => absent.1 rfl
    obtain ⟨e, -, mem⟩ := Entry.mem_leafKeysOf.mp mem
    cases e with
    | circular => simp [Entry.leafKeys] at mem
    | leaf => simp [Entry.leafKeys] at mem
    | block => simp [Entry.leafKeys] at mem
  | cons key ks ih =>
    rw [Entry.mem_leafKeysOf, and_iff_right (List.cons_ne_nil _ _)]
    constructor
    · rintro ⟨entry, written, mem⟩
      obtain ⟨f, shown, writes⟩ := (mem_entriesOf_selected sound).mp written
      have structured := full (prop_of_mem_fieldsOn shown)
      cases writes with
      | circular => simp [Entry.leafKeys] at mem
      | leaf named declared plain =>
        simp only [Entry.leafKeys, List.mem_singleton, List.cons.injEq] at mem
        obtain ⟨rfl, rfl⟩ := mem
        have open_ := ((Bool.and_eq_true _ _).mp declared).2
        exact ⟨_, .field structured shown (by rw [named]; rfl) (.here f.prop), plain,
          (Bool.not_eq_true' _).mp open_⟩
      | block named declared inner =>
        obtain ⟨rest, mem, same⟩ := List.mem_map.mp (by simpa only [Entry.leafKeys] using mem)
        cases same
        obtain ⟨-, e, more, ends⟩ := ih.mp mem
        exact ⟨e, .field structured shown (by rw [named]; rfl) more, ends⟩
    · rintro ⟨e, keyed, plain, open_⟩
      cases keyed with
      | @field _ _ f _ structured shown named more =>
        obtain ⟨name, named'⟩ := Option.isSome_iff_exists.mp named
        have written : ∀ {entry}, g.Writes c .output f entry →
            entry ∈ entriesOf g (some c) (g.elementOf i) := fun writes =>
          (mem_entriesOf_selected sound).mpr ⟨f, shown, writes⟩
        have declared : (g.node (g.elementOf f.prop)).kind.isCircular = false →
            f.isDeclared g = true := fun open_ => by
          rw [VisibleField.isDeclared, named, open_]
          rfl
        cases inner : (g.node (g.elementOf f.prop)).kind.isStructured with
        | true =>
          have block : g.Writes c .output f (.block _ _ _) := .block named'
            (declared (not_isCircular_of_isStructured inner)) inner
          refine ⟨_, written block, ?_⟩
          rw [Entry.leafKeys]
          refine List.mem_map_of_mem (ih.mpr ⟨?_, e, more, plain, open_⟩)
          rintro rfl
          cases more
          rw [inner] at plain
          cases plain
        | false =>
          cases more with
          | here =>
            refine ⟨_, written (.leaf named' (declared open_) inner), ?_⟩
            rw [Entry.leafKeys]
            exact List.mem_singleton_self _
          | field structured' =>
            rw [inner] at structured'
            cases structured'

end Graph

/-! ## Fields that are kept -/

namespace Kind

variable {k k' : Kind}

@[simp] theorem isStructured_of_isComposition (composition : k.isComposition = true) :
    k.isStructured = true := by
  cases k <;> first | rfl | cases composition

/-- Below a schema, what has a child is an object, a composition or leads on. -/
theorem leads_of_admits (inner : k.isInner = true) (admits : k.admits k' = true)
    (other : k.tag ≠ .object) (plain : k.isComposition = false) :
    k.isWrapper = true ∨ k.isArray = true := by
  cases k with
  | property shape =>
    cases shape <;> first | exact .inl rfl | exact .inr rfl | cases admits
  | _ => first
    | exact .inl rfl
    | exact .inr rfl
    | exact absurd rfl other
    | exact Bool.noConfusion plain
    | exact Bool.noConfusion inner
    | exact Bool.noConfusion admits

theorem isNarrow_of_leads (leads : k.isWrapper = true ∨ k.isArray = true) : k.isNarrow = true := by
  rcases leads with wrapper | array
  · exact isNarrow_of_isWrapper wrapper
  · cases k <;> first | rfl | cases array

end Kind

theorem declaresProperties_of_sortedProperties {schema : Json} {place : Nat} {x : String × Json}
    (here : (sortedProperties schema)[place]? = some x) :
    Shape.declaresProperties schema = true := by
  unfold sortedProperties at here
  unfold Shape.declaresProperties
  cases found : (schema.get? "properties").bind Json.object? with
  | none =>
    rw [found] at here
    cases here
  | some members =>
    cases members with
    | nil =>
      rw [found] at here
      cases here
    | cons => rfl

namespace Graph

/-- Above the schemas there is no field, and nothing is in the way. -/
theorem Forest.outer_of_not_isInner (forest : g.Forest) (outer : (g.node i).kind.isInner = false) :
    g.keysOf i = [] ∧ g.isStraight i = true := by
  induction i using Nat.strongRecOn with
  | ind i ih =>
    have plain : (g.node i).isProperty = false ∧ (g.node i).kind.tag ≠ .array := by
      rw [Node.isProperty]
      cases kind : (g.node i).kind <;> rw [kind] at outer <;>
        first | exact ⟨rfl, Tag.noConfusion⟩ | cases outer
    have unmerged : g.isMergedList i = false :=
      Bool.and_eq_false_iff.mpr (.inl (beq_eq_false_iff_ne.mpr plain.2))
    cases parent : (g.node i).parent with
    | none =>
      have shown : g.isShadowed i = false := by rw [isShadowed, parent]
      rw [keysOf, isStraight, chain, ancestors_of_root parent]
      simp [isField, plain.1, shown, unmerged]
    | some p =>
      have child := forest.child parent
      have above : (g.node p).kind.isInner = false := by
        cases inner : (g.node p).kind.isInner with
        | false => rfl
        | true => rw [Kind.isInner_of_admits inner (forest.admits child)] at outer; cases outer
      have other : (g.node p).kind.tag ≠ .object := by
        cases kind : (g.node p).kind <;> rw [kind] at above <;>
          first | exact Tag.noConfusion | cases above
      obtain ⟨keys, straight⟩ := ih p (forest.below child).1 above
      rw [forest.keysOf_of_child child, forest.isField_of_child child, plain.1, keys]
      exact ⟨rfl, (forest.isStraight_of_child child).mpr
        ⟨straight, forest.not_isShadowed child other, unmerged⟩⟩

/-- A node that leads on has the element of its child. -/
theorem Forest.elementOf_of_child (forest : g.Forest)
    (leads : (g.node i).kind.isWrapper = true ∨ (g.node i).kind.isArray = true)
    (child : a ∈ (g.node i).children) : g.elementOf i = g.elementOf a := by
  have alone := forest.narrow (Kind.isNarrow_of_leads leads)
  cases children : (g.node i).children with
  | nil =>
    rw [children] at child
    cases child
  | cons first rest =>
    rw [children, List.length_cons] at alone
    obtain rfl := List.eq_nil_of_length_eq_zero (Nat.le_zero.mp (Nat.le_of_succ_le_succ alone))
    have bounds := forest.below child
    rw [children, List.mem_singleton] at child
    subst child
    exact elementOf_of_first leads children bounds

/-- No field leads to the schema of a response, and nothing is in the way. -/
theorem Forest.schema_of_response (forest : g.Forest) (kind : (g.node p).kind.tag = .response)
    (child : j ∈ (g.node p).children) : (g.node j).kind.isSchema = true ∧ g.bearer? j = none ∧
      g.keysOf j = [] ∧ g.isStraight j = true := by
  have facts : (g.node p).kind.isInner = false ∧ (g.node p).kind.expands = false ∧
      (g.node p).kind.tag ≠ .object ∧ (g.node j).kind.isSchema = true := by
    have admits := forest.admits child
    cases k : (g.node p).kind <;> rw [k] at kind admits <;>
      first | exact ⟨rfl, rfl, Tag.noConfusion, admits⟩ | cases kind
  obtain ⟨outer, inert, other, schema⟩ := facts
  obtain ⟨keys, straight⟩ := forest.outer_of_not_isInner outer
  have top := forest.bearer?_of_not_expands child inert
  refine ⟨schema, top, ?_, (forest.isStraight_of_child child).mpr
    ⟨straight, forest.not_isShadowed child other, ?_⟩⟩
  · rw [forest.keysOf_of_child child, forest.not_isField child other, keys]
    rfl
  · rw [isMergedList, top, Option.isSome_none, Bool.and_false]

/-- All that is below a response is below its schema. -/
theorem Forest.below_response (forest : g.Forest) (kind : (g.node p).kind.tag = .response)
    (child : j ∈ (g.node p).children) (below : p ∈ g.ancestors n) : j = n ∨ j ∈ g.ancestors n := by
  obtain ⟨a, child', way⟩ := forest.exists_child_of_mem_ancestors below
  have alone := forest.narrow (i := p) (by
    cases k : (g.node p).kind <;> rw [k] at kind <;> first | rfl | cases kind)
  obtain ⟨first, children⟩ := List.length_eq_one_iff.mp
    (Nat.le_antisymm alone (List.length_pos_of_mem child))
  rw [children, List.mem_singleton] at child child'
  exact child.trans child'.symm ▸ way

/-- Only a circular property has a circular leaf below. -/
theorem Forest.not_isCircular_of_child (forest : g.Forest) (child : a ∈ (g.node i).children)
    (open_ : (g.node a).kind.isCircular = false) : (g.node i).kind.isCircular = false := by
  have admits := forest.admits child
  cases kind : (g.node i).kind with
  | circular =>
    rw [kind] at admits
    cases admits
  | property shape =>
    cases shape with
    | circular =>
      rw [kind] at admits
      have tag : (g.node a).kind.tag = .circular := beq_iff_eq.mp admits
      cases kind' : (g.node a).kind <;> rw [kind'] at tag open_ <;> cases tag
      cases open_
    | _ => rfl
  | _ => rfl

/-- A selected field is shown, and under a name unless it closes a cycle. -/
theorem exists_field {name : String} (field : (name, q) ∈ (g.node n).props)
    (selected : q ∈ c.selected) (open_ : (g.node q).kind.isCircular = false) :
    ∃ f ∈ g.fieldsOn c .output n, f.name.isSome = true ∧ f.jsonName = name ∧ f.prop = q := by
  have named : ∀ {taken : List String} {props : List (String × Nat)}, (name, q) ∈ props →
      ∃ f ∈ nameFields g taken props, f.name.isSome = true ∧ f.jsonName = name ∧ f.prop = q := by
    intro taken props mem
    induction props generalizing taken with
    | nil => cases mem
    | cons x rest ih =>
      obtain ⟨first, prop⟩ := x
      rw [nameFields]
      rcases List.mem_cons.mp mem with same | mem
      · cases same
        split
        · next kind =>
          rw [kind] at open_
          cases open_
        · exact ⟨_, List.mem_cons_self, rfl, rfl, rfl⟩
      · split
        all_goals
          obtain ⟨f, shown, facts⟩ := ih mem
          exact ⟨f, List.mem_cons_of_mem _ shown, facts⟩
  exact named (List.mem_filter.mpr ⟨field, List.contains_iff_mem.mpr selected⟩)

/-- An object that has a property is one that declares some. -/
theorem Derived.isStructured_of_object (derived : g.Derived d) (forest : g.Forest)
    (object : (g.node o).kind.tag = .object) (child : q ∈ (g.node o).children) :
    (g.node o).kind.isStructured = true := by
  obtain ⟨synthetic, kind⟩ : ∃ synthetic, (g.node o).kind = .object synthetic := by
    cases kind : (g.node o).kind with
    | object synthetic => exact ⟨synthetic, rfl⟩
    | _ =>
      rw [kind] at object
      cases object
  obtain ⟨_, _, here, -⟩ := derived.field_of_child forest object (List.getElem?_idxOf child)
  have declares := declaresProperties_of_sortedProperties here
  obtain ⟨_, -, same⟩ | made := derived.shape forest (lt_size_of_child child) (by rw [kind]; rfl)
    (kind ▸ Kind.not_isBare_of_isOwner rfl)
  · rw [kind] at same
    cases same
  · rw [kind] at made ⊢
    unfold Build.kindOfShape? at made
    split at made <;> cases made
    next shape =>
      rw [Shape.synthetic_of_object shape, declares]
      rfl

/-- Only containers have fields. -/
theorem Derived.isStructured_of_props (derived : g.Derived d) (sound : g.Sound) {x : String × Nat}
    (field : x ∈ (g.node n).props) : (g.node n).kind.isStructured = true := by
  cases composition : (g.node n).kind.isComposition with
  | true =>
    cases kind : (g.node n).kind <;> rw [kind] at composition <;> first | rfl | cases composition
  | false =>
    obtain ⟨object, child⟩ := sound.own composition field
    exact derived.isStructured_of_object sound object child

theorem name_mem_fieldsAt (child : q ∈ (g.node o).children) :
    (g.node q).name ∈ (g.fieldsAt o).map Prod.fst := by
  have gather : ∀ (children : List Nat) (fields : List (String × Nat)),
      q ∈ children ∨ (g.node q).name ∈ fields.map Prod.fst → (g.node q).name ∈
        (children.foldl (fun fields q => Run.assign (g.node q).name q fields) fields).map
          Prod.fst := by
    intro children
    induction children with
    | nil => exact fun fields known => known.resolve_left List.not_mem_nil
    | cons c rest ih =>
      intro fields known
      refine ih _ ?_
      rw [Run.keys_assign]
      rcases known with here | known
      · rcases List.mem_cons.mp here with rfl | later
        · right
          split
          · assumption
          · exact List.mem_append_right _ (List.mem_singleton_self _)
        · exact .inl later
      · right
        split
        · exact known
        · exact List.mem_append_left _ known
  exact gather _ _ (.inl child)

end Graph

/-- The keys lead to the element of the node, or to the composition that the node is merged into. -/
def Graph.LeadsTo (g : Graph) (c : Collection) (j a : Nat) : Prop :=
  match g.bearer? a with
  | none => g.Keyed c j (g.keysOf a) (g.elementOf a)
  | some x => g.Branch x a ∧ (g.node x).kind.isComposition = true ∧ g.Keyed c j (g.keysOf a) x

/-- Whether the node is a property that ends a selection and closes no cycle. -/
def Node.isOpenLeaf (n : Node) : Bool := n.isProperty && n.isLeaf && !n.kind.isCircular

/-- A run in which what was collected is there to be bound. -/
structure Run.Bound (d : Document) (c : Collection) (r : Run) : Prop where
  sound : r.graph.Sound
  derived : r.graph.Derived d
  lineal : r.graph.Lineal
  filled : r.graph.Filled
  complete : r.Complete
  collected : c.Sound r.graph
  allowed : ∀ i ∈ c.selected, ∀ f, r.filter = some f → f.allows (r.graph.pathOf i) = true

namespace Run.Bound

variable (bound : r.Bound d c)

include bound

theorem mem_props (child : q ∈ (r.graph.node o).children)
    (object : (r.graph.node o).kind.tag = .object) (shown : r.graph.isShadowed q = false) :
    ((r.graph.node q).name, q) ∈ (r.graph.node o).props := by
  have known := Graph.name_mem_fieldsAt child
  rw [← bound.filled o object] at known
  obtain ⟨x, field, same⟩ := List.mem_map.mp known
  have prop := (bound.sound.toForest.isShadowed_eq_false child object).mp shown o x (.inl rfl)
    field same
  rwa [← same, ← prop]

/-- A selected property that is not shadowed is a field of what bears it. -/
theorem mem_bearer_props (child : q ∈ (r.graph.node o).children)
    (object : (r.graph.node o).kind.tag = .object) (shown : r.graph.isShadowed q = false)
    (selected : q ∈ c.selected)
    (covers : ∀ x, r.graph.bearer? o = some x → r.graph.Branch x o ∧ r.Covers x) :
    ((r.graph.node q).name, q) ∈ (r.graph.node ((r.graph.bearer? o).getD o)).props := by
  have own := bound.mem_props child object shown
  cases bearer : r.graph.bearer? o with
  | none => exact own
  | some x =>
    obtain ⟨branch, covers⟩ := covers x bearer
    have known := covers.fields o branch object _ own (bound.allowed q selected)
    obtain ⟨y, field, same⟩ := List.mem_map.mp known
    have prop := (bound.sound.toForest.isShadowed_eq_false child object).mp shown x y
      (.inr (by rw [bearer]; rfl)) field same
    exact (Prod.ext same prop : y = ((r.graph.node q).name, q)) ▸ field

/-- A composition that is met has taken in what is selected of its branches. -/
theorem covers (explored : r.graph.Explored c .output j) (meets : r.graph.Meets c .output j m)
    (composition : (r.graph.node m).kind.isComposition = true) : r.Covers m := by
  have merged := (explored.settled m meets).merged
  rw [Node.isMerged, composition, Bool.not_true, Bool.false_or] at merged
  exact bound.complete m composition merged

/-- A selected property of an object is one of the fields its bearer keeps, so the keys lead one
further. -/
theorem leadsTo_property (explored : r.graph.Explored c .output j) (above : r.graph.LeadsTo c j i)
    (child : a ∈ (r.graph.node i).children) (object : (r.graph.node i).kind.tag = .object)
    (selected : a ∈ c.selected) (shown : r.graph.isShadowed a = false)
    (open_ : (r.graph.node a).kind.isCircular = false) : r.graph.LeadsTo c j a := by
  have forest := bound.sound.toForest
  have keys := forest.keysOf_of_child child
  have structured := bound.derived.isStructured_of_object forest object child
  have prop : (r.graph.node a).isProperty = true := by
    have admits := forest.admits child
    cases kind : (r.graph.node i).kind <;> rw [kind] at object admits <;> cases object
    exact admits
  have plain : (r.graph.node i).isProperty = false := by
    rw [Node.isProperty]
    cases kind : (r.graph.node i).kind <;> rw [kind] at object <;> first | rfl | cases object
  rw [forest.isField_of_child child, prop, plain] at keys
  have keyed : r.graph.Keyed c j (r.graph.keysOf i) ((r.graph.bearer? i).getD i) ∧
      (r.graph.node ((r.graph.bearer? i).getD i)).kind.isStructured = true := by
    unfold Graph.LeadsTo at above
    split at above
    · next none =>
      rw [none, Option.getD_none]
      rw [Graph.elementOf_of_isStructured structured] at above
      exact ⟨above, structured⟩
    · next x some =>
      rw [some, Option.getD_some]
      exact ⟨above.2.2, Kind.isStructured_of_isComposition above.2.1⟩
  have field := bound.mem_bearer_props child object shown selected fun x some => by
    rw [Graph.LeadsTo, some] at above
    exact ⟨above.1, bound.covers explored above.2.2.meets above.2.1⟩
  obtain ⟨f, shown, named, json, here⟩ := Graph.exists_field field selected open_
  rw [Graph.LeadsTo, forest.bearer?_of_isProperty prop, keys, ← json, ← here]
  exact keyed.1.step keyed.2 shown named

/-- What a branch bears, the composition at the top takes in: the keys stay. -/
theorem leadsTo_branch (above : r.graph.LeadsTo c j i) (child : a ∈ (r.graph.node i).children)
    (expands : (r.graph.node i).kind.expands = true) (keys : r.graph.keysOf a = r.graph.keysOf i)
    (onward : (r.graph.node i).kind.isComposition = false →
      r.graph.elementOf i = r.graph.elementOf a) : r.graph.LeadsTo c j a := by
  have edge : r.graph.Edge i a := ⟨expands, child⟩
  have bearer := bound.sound.toForest.bearer?_of_child child
  rw [expands, if_pos rfl] at bearer
  unfold Graph.LeadsTo at above ⊢
  rw [keys]
  cases top : r.graph.bearer? i with
  | some x =>
    rw [top] at above bearer
    have known : r.graph.bearer? a = some x := by
      rw [bearer]
      split <;> rfl
    rw [known]
    exact ⟨above.1.tail edge, above.2⟩
  | none =>
    rw [top] at above bearer
    by_cases composition : (r.graph.node i).kind.isComposition = true
    · rw [if_pos composition, Option.getD_none] at bearer
      rw [bearer]
      change r.graph.Keyed c j (r.graph.keysOf i) (r.graph.elementOf i) at above
      rw [Graph.elementOf_of_isStructured
        (Kind.isStructured_of_isComposition composition)] at above
      exact ⟨.single edge, composition, above⟩
    · rw [if_neg composition] at bearer
      rw [bearer]
      change r.graph.Keyed c j (r.graph.keysOf i) (r.graph.elementOf a)
      exact onward (Bool.eq_false_iff.mpr composition) ▸ above

/-- On a straight way to something selected, one step further. -/
theorem leadsTo_child (explored : r.graph.Explored c .output j) (above : r.graph.LeadsTo c j i)
    (child : a ∈ (r.graph.node i).children) (inner : (r.graph.node i).kind.isInner = true)
    (selected : a ∈ c.selected) (straight : r.graph.isStraight a = true)
    (open_ : (r.graph.node a).kind.isCircular = false) : r.graph.LeadsTo c j a := by
  have forest := bound.sound.toForest
  have way := (forest.isStraight_of_child child).mp straight
  by_cases object : (r.graph.node i).kind.tag = .object
  · exact bound.leadsTo_property explored above child object selected way.2.1 open_
  · have keys := forest.keysOf_of_child child
    rw [forest.not_isField child object, if_neg Bool.false_ne_true, List.append_nil] at keys
    have onward : (r.graph.node i).kind.isComposition = false →
        r.graph.elementOf i = r.graph.elementOf a := fun plain =>
      forest.elementOf_of_child (Kind.leads_of_admits inner (forest.admits child) object plain)
        child
    by_cases expands : (r.graph.node i).kind.expands = true
    · exact bound.leadsTo_branch above child expands keys onward
    · have inert := Bool.eq_false_iff.mpr expands
      have plain : (r.graph.node i).kind.isComposition = false :=
        Bool.eq_false_iff.mpr fun composition =>
          expands (Kind.expands_of_isComposition composition)
      have top := forest.bearer?_of_straight
        (Kind.leads_of_admits inner (forest.admits child) object plain) inert way.1
      unfold Graph.LeadsTo at above ⊢
      rw [top] at above
      rw [keys, forest.bearer?_of_not_expands child inert]
      change r.graph.Keyed c j (r.graph.keysOf i) (r.graph.elementOf a)
      exact onward plain ▸ above

/-- On a straight way to something selected, the keys of the fields lead down. -/
theorem leadsTo (explored : r.graph.Explored c .output j) (top : r.graph.bearer? j = none)
    (flat : r.graph.keysOf j = []) (inner : (r.graph.node j).kind.isInner = true)
    (way : a = j ∨ j ∈ r.graph.ancestors a) (selected : a ∈ c.selected)
    (straight : r.graph.isStraight a = true)
    (open_ : (r.graph.node a).kind.isCircular = false) : r.graph.LeadsTo c j a := by
  have forest := bound.sound.toForest
  induction a using Nat.strongRecOn with
  | ind a ih =>
    rcases way with rfl | below
    · rw [Graph.LeadsTo, top, flat]
      exact .here a
    · cases parent : (r.graph.node a).parent with
      | none =>
        rw [Graph.ancestors_of_root parent] at below
        cases below
      | some p =>
        have child := forest.child parent
        have above := forest.ancestors_of_child child
        rw [above] at below
        have way : p = j ∨ j ∈ r.graph.ancestors p := (List.mem_cons.mp below).imp_left Eq.symm
        have inner' : (r.graph.node p).kind.isInner = true := by
          rcases way with rfl | below
          · exact inner
          · exact (Graph.inArguments_of_below bound.sound inner below).2
        have closed : (r.graph.node p).kind.isCircular = false :=
          forest.not_isCircular_of_child child open_
        have above := ih p (forest.below child).1 way
          (bound.collected.upward a selected p (above ▸ List.mem_cons_self))
          ((forest.isStraight_of_child child).mp straight).1 closed
        exact bound.leadsTo_child explored above child inner' selected straight open_

/-! ## Leaves -/

/-- What is selected is a leaf or leads to something that is selected. -/
theorem exists_selected_child (selected : i ∈ c.selected)
    (inner : (r.graph.node i).isLeaf = false) :
    ∃ a ∈ (r.graph.node i).children, a ∈ c.selected := by
  obtain ⟨l, leaf, way⟩ := bound.collected.below i selected
  rcases Graph.mem_chain.mp way with rfl | above
  · rw [bound.collected.leaf i leaf] at inner
    cases inner
  · obtain ⟨a, child, rfl | above⟩ := bound.sound.toForest.exists_child_of_mem_ancestors above
    · exact ⟨a, child, bound.collected.leaves a leaf⟩
    · exact ⟨a, child, bound.collected.upward l (bound.collected.leaves l leaf) a above⟩

theorem targetOf_selected (selected : i ∈ c.selected)
    (inner : (r.graph.node i).kind.isWrapper = true → (r.graph.node i).isLeaf = false) :
    r.graph.targetOf i ∈ c.selected := by
  fun_induction Graph.targetOf r.graph i with
  | case1 i wrapper first bounds found ih =>
    obtain ⟨rest, children⟩ := Graph.firstBelow?_eq_some found
    obtain ⟨a, child, selected'⟩ := bound.exists_selected_child selected (inner wrapper)
    have alone := bound.sound.narrow (Kind.isNarrow_of_isWrapper wrapper)
    have admits := bound.sound.admits child
    rw [children, List.length_cons] at alone
    obtain rfl := List.eq_nil_of_length_eq_zero (Nat.le_zero.mp (Nat.le_of_succ_le_succ alone))
    obtain rfl : a = first := by rwa [children, List.mem_singleton] at child
    have plain := Kind.not_isProperty_of_wrapped wrapper admits
    refine ih selected' fun wrapper' => ?_
    rw [Node.isLeaf]
    cases kind : (r.graph.node a).kind <;> rw [kind] at plain wrapper' <;>
      first | rfl | cases wrapper' | cases plain
  | case2 | case3 => exact selected

/-- A selected property of an object or a composition leads to one, or to a cycle. -/
theorem elementOf_of_wrapped {shape : PropShape} {required : Bool}
    (kind : (r.graph.node q).kind = .property shape required)
    (shaped : shape = .object ∨ shape = .composed) (selected : q ∈ c.selected) :
    (r.graph.node (r.graph.elementOf q)).kind.isCircular = true ∨
      (r.graph.node (r.graph.elementOf q)).kind.isStructured = true := by
  have facts : shape.isWrapper = true ∧ shape ≠ .circular ∧ shape ≠ .enum ∧
      (Kind.property shape required).isLeaf = false := by
    rcases shaped with rfl | rfl <;> exact ⟨rfl, by decide, by decide, rfl⟩
  obtain ⟨wraps, open_, other, inner⟩ := facts
  obtain ⟨same, ends⟩ := bound.derived.targetOf_prop bound.sound bound.lineal kind wraps open_
  have selected' := bound.targetOf_selected selected fun _ => by rw [Node.isLeaf, kind, inner]
  rw [same]
  rcases ends with ⟨childless, way⟩ | ⟨enum, -⟩ | ⟨-, circular | structured⟩
  · have inner' : (r.graph.node (r.graph.targetOf q)).isLeaf = false := by
      rw [Node.isLeaf]
      rcases way with same | reference
      · rw [same, kind, inner]
      · cases kind : (r.graph.node (r.graph.targetOf q)).kind <;> rw [kind] at reference <;>
          first | rfl | cases reference
    obtain ⟨a, child, -⟩ := bound.exists_selected_child selected' inner'
    rw [childless] at child
    cases child
  · exact absurd enum other
  · left
    cases kind : (r.graph.node (r.graph.targetOf q)).kind <;> rw [kind] at circular <;>
      first | rfl | cases circular
  · exact .inr structured

/-- A leaf that closes no cycle leads to no container and to no cycle. -/
theorem elementOf_of_isOpenLeaf (leaf : (r.graph.node n).isOpenLeaf = true) :
    (r.graph.node (r.graph.elementOf n)).kind.isStructured = false ∧
      (r.graph.node (r.graph.elementOf n)).kind.isCircular = false := by
  obtain ⟨⟨prop, end_⟩, open_⟩ : ((r.graph.node n).isProperty = true ∧
      (r.graph.node n).isLeaf = true) ∧ (r.graph.node n).kind.isCircular = false := by
    simpa [Node.isOpenLeaf] using leaf
  obtain ⟨shape, required, kind⟩ := Kind.eq_property_of_isProperty prop
  rw [Node.isLeaf, kind] at end_
  rw [kind] at open_
  cases shape with
  | scalar =>
    rw [Graph.elementOf_of_end (by rw [kind]; rfl) (by rw [kind]; rfl), kind]
    exact ⟨rfl, rfl⟩
  | enum =>
    obtain ⟨same, ends⟩ := bound.derived.targetOf_prop bound.sound bound.lineal kind rfl (by decide)
    rw [same]
    rcases ends with ⟨-, same | reference⟩ | ⟨-, enum⟩ | ⟨other, -⟩
    · rw [same, kind]
      exact ⟨rfl, rfl⟩
    · cases kind : (r.graph.node (r.graph.targetOf n)).kind <;> rw [kind] at reference <;>
        first | exact ⟨rfl, rfl⟩ | cases reference
    · cases kind : (r.graph.node (r.graph.targetOf n)).kind <;> rw [kind] at enum <;>
        first | exact ⟨rfl, rfl⟩ | cases enum
    · exact absurd rfl other
  | circular => cases open_
  | object | array | composed => cases end_

/-- A selected property that leads to no container and to no cycle is a leaf, or a list of
leaves. -/
theorem exists_leaf (prop : (r.graph.node q).isProperty = true) (selected : q ∈ c.selected)
    (plain : (r.graph.node (r.graph.elementOf q)).kind.isStructured = false)
    (open_ : (r.graph.node (r.graph.elementOf q)).kind.isCircular = false) :
    ∃ n ∈ c.selected, (n = q ∨ q ∈ r.graph.ancestors n) ∧ (r.graph.node n).isOpenLeaf = true ∧
      r.graph.keysOf n = r.graph.keysOf q ∧ r.graph.isStraight n = r.graph.isStraight q := by
  have forest := bound.sound.toForest
  induction size : r.graph.size - q using Nat.strongRecOn generalizing q with
  | ind k ih =>
    obtain ⟨shape, required, kind⟩ := Kind.eq_property_of_isProperty prop
    cases shape with
    | scalar | enum =>
      refine ⟨q, selected, .inl rfl, ?_, rfl, rfl⟩
      rw [Node.isOpenLeaf, Node.isProperty, Node.isLeaf, kind]
      rfl
    | circular =>
      -- the way ends at the property itself or at the leaf below it
      exfalso
      cases children : (r.graph.node q).children with
      | nil =>
        rw [Graph.elementOf_of_childless children, kind] at open_
        cases open_
      | cons a rest =>
        have child : a ∈ (r.graph.node q).children := children ▸ List.mem_cons_self
        have admits := forest.admits child
        rw [kind] at admits
        have tag : (r.graph.node a).kind.tag = .circular := beq_iff_eq.mp admits
        rw [forest.elementOf_of_child (.inl (by rw [kind]; rfl)) child,
          Graph.elementOf_of_isCircular tag] at open_
        cases kind' : (r.graph.node a).kind <;> rw [kind'] at tag open_ <;> cases tag
        cases open_
    | array =>
      obtain ⟨a, child, selected'⟩ := bound.exists_selected_child selected (by
        rw [Node.isLeaf, kind]
        rfl)
      have leads : (r.graph.node q).kind.isWrapper = true ∨ (r.graph.node q).kind.isArray = true :=
        .inr (by rw [kind]; rfl)
      have admits := forest.admits child
      rw [kind] at admits
      have same := forest.elementOf_of_child leads child
      obtain ⟨-, keys, straight⟩ :=
        forest.leads_to_child leads child (forest.bearer?_of_isProperty prop)
      have bounds := forest.below child
      obtain ⟨n, mem, way, leaf, keys', straight'⟩ := ih _ (by omega) admits selected'
        (same ▸ plain) (same ▸ open_) rfl
      have above : q ∈ r.graph.ancestors a := forest.ancestors_of_child child ▸ List.mem_cons_self
      refine ⟨n, mem, .inr ?_, leaf, keys'.trans keys, straight'.trans straight⟩
      rcases way with rfl | way
      · exact above
      · exact Graph.mem_ancestors_trans above way
    | object | composed =>
      exfalso
      rcases bound.elementOf_of_wrapped kind (by decide) selected with circular | structured
      · rw [circular] at open_
        cases open_
      · rw [structured] at plain
        cases plain

/-- A field that is shown stands below the container on a straight way, one key further down. -/
theorem field_of_shown (explored : r.graph.Explored c .output i)
    (meets : r.graph.Meets c .output i m)
    (top : r.graph.bearer? m = none) (shown : f ∈ r.graph.fieldsOn c .output m) :
    f.prop ∈ c.selected ∧ m ∈ r.graph.ancestors f.prop ∧ (r.graph.node f.prop).isProperty = true ∧
      r.graph.keysOf f.prop = r.graph.keysOf m ++ [f.jsonName] ∧
      (r.graph.isStraight m = true → r.graph.isStraight f.prop = true) := by
  have forest := bound.sound.toForest
  have field := Graph.prop_of_mem_fieldsOn shown
  have isField := bound.sound.fields field
  have selected : f.prop ∈ c.selected :=
    List.contains_iff_mem.mp (List.mem_filter.mp (Graph.mem_nameFields shown)).2
  refine ⟨selected, isField.above, isField.isProperty, ?_⟩
  -- the object that the property belongs to, which the container bears
  obtain ⟨o, object, child, own, bearer, keys, straight⟩ : ∃ o,
      (r.graph.node o).kind.tag = .object ∧ f.prop ∈ (r.graph.node o).children ∧
        (f.jsonName, f.prop) ∈ (r.graph.node o).props ∧ (r.graph.bearer? o).getD o = m ∧
        r.graph.keysOf o = r.graph.keysOf m ∧
        (r.graph.isStraight m = true → r.graph.isStraight o = true) := by
    cases composition : (r.graph.node m).kind.isComposition with
    | false =>
      obtain ⟨object, child⟩ := bound.sound.own composition field
      exact ⟨m, object, child, field, by rw [top]; rfl, rfl, id⟩
    | true =>
      obtain ⟨o, branch, object, own⟩ := (bound.covers explored meets composition).origin _ field
      have plain : (r.graph.node o).kind.isComposition = false := by
        cases kind : (r.graph.node o).kind <;> rw [kind] at object <;> first | rfl | cases object
      obtain ⟨bearer, keys, -⟩ := forest.bearer?_of_branch top composition branch
      refine ⟨o, object, (bound.sound.own plain own).2,
        own, by rw [bearer]; rfl, keys, fun straight =>
        forest.isStraight_of_branch top composition straight branch ?_⟩
      rw [object]
      exact Tag.noConfusion
  have plain : (r.graph.node o).isProperty = false := by
    rw [Node.isProperty]
    cases kind : (r.graph.node o).kind <;> rw [kind] at object <;> first | rfl | cases object
  constructor
  · rw [forest.keysOf_of_child child, forest.isField_of_child child,
      isField.isProperty, plain, keys, isField.name]
    rfl
  · refine fun whole => (forest.isStraight_of_child child).mpr ⟨straight whole, ?_, ?_⟩
    · refine (forest.isShadowed_eq_false child object).mpr fun n x side mem same => ?_
      have key : x.1 = f.jsonName := same.trans isField.name
      have both : x ∈ (r.graph.node n).props ∧ (f.jsonName, f.prop) ∈ (r.graph.node n).props := by
        rcases side with rfl | rfl
        · exact ⟨mem, own⟩
        · exact ⟨mem, bearer.symm ▸ field⟩
      exact congrArg Prod.snd (List.inj_on_of_nodup_map (bound.sound.keys n) both.1 both.2 key)
    · rw [Graph.isMergedList, forest.bearer?_of_isProperty isField.isProperty, Option.isSome_none,
        Bool.and_false]

/-- Where keys lead to neither a container nor a cycle, there is a selected leaf. -/
theorem exists_leaf_of_keyed (explored : r.graph.Explored c .output i)
    (keyed : r.graph.Keyed c i ks e) (top : r.graph.bearer? i = none)
    (straight : r.graph.isStraight i = true) (some : ks ≠ [])
    (plain : (r.graph.node e).kind.isStructured = false)
    (open_ : (r.graph.node e).kind.isCircular = false) :
    ∃ n ∈ c.selected, i ∈ r.graph.ancestors n ∧ (r.graph.node n).isOpenLeaf = true ∧
      r.graph.keysOf n = r.graph.keysOf i ++ ks ∧ r.graph.isStraight n = true := by
  have forest := bound.sound.toForest
  induction keyed with
  | here => exact absurd rfl some
  | @field i e f ks structured shown named more ih =>
    obtain ⟨top', keys, straight', way⟩ := forest.leads_to_element top
    obtain ⟨selected, above, prop, keys', whole⟩ :=
      bound.field_of_shown explored (.here i) top' shown
    have straight := whole (straight'.trans straight)
    have inside : i ∈ r.graph.ancestors f.prop := way.elim (fun same => same ▸ above)
      fun way => Graph.mem_ancestors_trans way above
    rw [keys] at keys'
    by_cases last : ks = []
    · subst last
      cases more with
      | here =>
        obtain ⟨n, mem, way, leaf, keys, straight''⟩ := bound.exists_leaf prop selected plain open_
        refine ⟨n, mem, ?_, leaf, keys.trans keys', straight''.trans straight⟩
        rcases way with rfl | way
        · exact inside
        · exact Graph.mem_ancestors_trans inside way
    · obtain ⟨n, mem, way, leaf, keys, straight⟩ :=
        ih (explored.of_field structured shown named bound.sound)
          (forest.bearer?_of_isProperty prop) straight last plain open_
      refine ⟨n, mem, Graph.mem_ancestors_trans inside way, leaf, ?_, straight⟩
      rw [keys, keys', List.append_assoc]
      rfl

/-- The keys on the ways down to what is written are those of the selected leaves on straight
ways. -/
theorem mem_leafKeys_iff (explored : r.graph.Explored c .output j) (top : r.graph.bearer? j = none)
    (flat : r.graph.keysOf j = []) (straight : r.graph.isStraight j = true)
    (inner : (r.graph.node j).kind.isSchema = true) :
    ks ∈ Entry.leafKeysOf (entriesOf r.graph (some c) (r.graph.elementOf j)) ↔
      ∃ n ∈ c.selected, j ∈ r.graph.ancestors n ∧ (r.graph.node n).isOpenLeaf = true ∧
        r.graph.isStraight n = true ∧ r.graph.keysOf n = ks := by
  rw [Graph.mem_leafKeysOf_iff bound.sound (bound.derived.isStructured_of_props bound.sound)]
  constructor
  · rintro ⟨some, e, keyed, plain, open_⟩
    obtain ⟨n, mem, below, leaf, keys, straight⟩ :=
      bound.exists_leaf_of_keyed explored keyed top straight some plain open_
    rw [flat, List.nil_append] at keys
    exact ⟨n, mem, below, leaf, straight, keys⟩
  · rintro ⟨n, mem, below, leaf, straight, rfl⟩
    have inner' : (r.graph.node j).kind.isInner = true := by rw [Kind.isInner, inner]; rfl
    obtain ⟨⟨prop, -⟩, open_⟩ : ((r.graph.node n).isProperty = true ∧
        (r.graph.node n).isLeaf = true) ∧ (r.graph.node n).kind.isCircular = false := by
      simpa [Node.isOpenLeaf] using leaf
    have leadsTo := bound.leadsTo explored top flat inner' (.inr below) mem straight open_
    rw [Graph.LeadsTo, bound.sound.toForest.bearer?_of_isProperty prop] at leadsTo
    exact ⟨bound.sound.toForest.keysOf_ne_nil prop, _, leadsTo, bound.elementOf_of_isOpenLeaf leaf⟩

/-- The same below a payload, whose schema is all that stands below it. -/
theorem mem_leafKeys_entriesBelow (kind : (r.graph.node p).kind.tag = .response)
    (explored : ∀ j ∈ (r.graph.node p).children.head?, r.graph.Explored c .output j) :
    ks ∈ Entry.leafKeysOf (r.graph.entriesBelow (some c) p) ↔
      ∃ n ∈ c.selected, p ∈ r.graph.ancestors n ∧ (r.graph.node n).isOpenLeaf = true ∧
        r.graph.isStraight n = true ∧ r.graph.keysOf n = ks := by
  have forest := bound.sound.toForest
  unfold Graph.entriesBelow
  cases children : (r.graph.node p).children with
  | nil =>
    refine iff_of_false (by simp [Entry.leafKeysOf]) ?_
    rintro ⟨n, -, below, -⟩
    obtain ⟨a, child, -⟩ := forest.exists_child_of_mem_ancestors below
    rw [children] at child
    cases child
  | cons j rest =>
    rw [children] at explored
    have child : j ∈ (r.graph.node p).children := children ▸ List.mem_cons_self
    obtain ⟨schema, top, flat, straight⟩ := forest.schema_of_response kind child
    rw [bound.mem_leafKeys_iff (explored j rfl) top flat straight schema]
    refine exists_congr fun n => and_congr_right fun mem => and_congr_left fun facts => ?_
    have above : p ∈ r.graph.ancestors j := forest.ancestors_of_child child ▸ List.mem_cons_self
    refine ⟨Graph.mem_ancestors_trans above, fun below => ?_⟩
    rcases forest.below_response kind child below with rfl | way
    · have prop : (r.graph.node j).isProperty = true := by
        simp only [Node.isOpenLeaf, Bool.and_eq_true] at facts
        exact facts.1.1.1
      rw [Node.isProperty, Kind.not_isProperty_of_isSchema schema] at prop
      cases prop
    · exact way

/-- Either the entries are what is printed, or there are none and the response is told as a
whole. -/
theorem responseLines_eq (real : (r.graph.node p).kind.isSyntheticResponse = false) :
    responseLines r.graph c p = Entry.linesOf .response 0 (r.graph.entriesBelow (some c) p) ∨
      r.graph.entriesBelow (some c) p = [] ∧
      responseLines r.graph c p ∈ [["$"], [circularComment]] := by
  unfold Graph.entriesBelow
  cases children : (r.graph.node p).children with
  | nil =>
    rw [responseLines_of_childless real children]
    exact .inr ⟨rfl, List.mem_cons_self⟩
  | cons j rest =>
    rw [responseLines_of_schema real children]
    cases structured : (r.graph.node (r.graph.elementOf j)).kind.isStructured with
    | true =>
      rw [Graph.not_isCircular_of_isStructured structured]
      exact .inl rfl
    | false =>
      refine .inr ⟨List.eq_nil_iff_forall_not_mem.mpr fun entry written => ?_, ?_⟩
      · obtain ⟨f, shown, -⟩ := (Graph.mem_entriesOf_selected bound.sound).mp written
        rw [bound.derived.isStructured_of_props bound.sound (Graph.prop_of_mem_fieldsOn shown)]
          at structured
        cases structured
      · split
        · exact List.mem_cons_of_mem _ List.mem_cons_self
        · exact List.mem_cons_self

end Run.Bound

/-! ## Generated mappings -/

/-- Nothing is merged while paths are resolved. -/
theorem Run.Visits.complete_setFilter {s : Run} (visits : (Run.ofDocument d).Visits d s)
    (filter : PathFilter) : (s.setFilter filter).Complete := by
  intro n composition consolidated
  change (s.graph.node n).kind.isComposition = true at composition
  have inside : n < s.graph.size := Graph.lt_size_of_ne fun nowhere => by
    rw [nowhere] at composition
    cases composition
  have old := (visits.unmerged inside consolidated).1
  have tag := (Graph.unvisited_ofDocument d n old).1
  have plain : ((Graph.ofDocument d).node n).kind.isComposition = false := by
    cases kind : ((Graph.ofDocument d).node n).kind <;> rw [kind] at tag <;> first | rfl | cases tag
  rw [visits.grows.kind old] at composition
  exact absurd composition (Bool.eq_false_iff.mp plain)

namespace Build

variable {selections : List String} {settings : Settings} {text : String} {u : Run}
  {t : Draft} {ops : List OperationDecl}

/-- What was collected at first is there to be bound once the schema is generated. -/
theorem bound_of_generate (collected : Ends (collect d selections) (.ofDocument d) c r)
    (generated : Ends (generate d c settings) r text u) : u.Bound d c := by
  have ready := (Session.collect selections .start collected).ready
  obtain ⟨t, ops, drafted, -⟩ := ends_generate generated
  have after := ready.draft drafted
  obtain ⟨rfl, _, gen⟩ := ready.generated drafted
  obtain ⟨s, visits, rfl, -, allowed⟩ := collect_sound collected (Graph.ofDocument_sound d)
    (Graph.ofDocument_rooted d)
  have drafts : (s.setFilter (PathFilter.ofPaths c.paths)).Drafts d t.run := gen.typed.grows.run
  have first : Ends ((Call.collect selections).step d) (.ofDocument d) () _ :=
    Ends.discard_iff.mpr ⟨c, collected⟩
  have second : Ends ((Call.generate c settings).step d) _ () t.run :=
    Ends.discard_iff.mpr ⟨text, generated⟩
  have answered : t.run.Answered d := .call _ (.call _ .start first) second
  exact
    { sound := after.sound
      derived := after.derived
      lineal := answered.attained.firm.graph.lineal
      filled _ := drafts.filled (visits.filled (Graph.ofDocument_filled d _))
      complete := drafts.complete ready.sound (visits.complete_setFilter _)
      collected := after.collected
      allowed := fun i mem f filter => by
        rw [drafts.filter] at filter
        cases filter
        rw [drafts.grows.pathOf (ready.collected.inside i mem)]
        exact allowed i mem }

/-- What the mapping of a response binds: the keys on the ways down to its leaves are those of the
selected leaves that are reached by no shadowed property and through no list that is a branch. -/
theorem leafKeys_of_generate (collected : Ends (collect d selections) (.ofDocument d) c r)
    (generated : Ends (generate d c settings) r text u) : ∃ t ops,
    text = Text.trimEnd (Text.join "\n" (schemaLines d c settings t ops)) ++ "\n" ∧
    Ends (draft d c) r (t, ops) u ∧ ops.map OperationDecl.node = c.operations ∧
    ∀ o ∈ ops, ∃ p ∈ (t.run.graph.node o.node).children, o.response = some p ∧
      ((t.run.graph.node p).kind.isSyntheticResponse = false →
        (responseLines t.run.graph c p =
            Entry.linesOf .response 0 (t.run.graph.entriesBelow (some c) p) ∨
          t.run.graph.entriesBelow (some c) p = [] ∧
            responseLines t.run.graph c p ∈ [["$"], [circularComment]]) ∧
        ∀ ks, ks ∈ Entry.leafKeysOf (t.run.graph.entriesBelow (some c) p) ↔
          ∃ n ∈ c.selected, p ∈ t.run.graph.ancestors n ∧
            (t.run.graph.node n).isOpenLeaf = true ∧ t.run.graph.isStraight n = true ∧
              t.run.graph.keysOf n = ks) := by
  have bound := bound_of_generate collected generated
  have ready := (Session.collect selections .start collected).ready
  obtain ⟨t, ops, drafted, written⟩ := ends_generate generated
  obtain ⟨rfl, starts, gen⟩ := ready.generated drafted
  refine ⟨t, ops, written, drafted, draft_order drafted, fun o mem => ?_⟩
  obtain ⟨own, fits, sub⟩ := gen.fits o mem
  obtain ⟨p, response⟩ := Option.isSome_iff_exists.mp (gen.names o mem).2
  obtain ⟨child, tag, gives⟩ := fits.response p response
  refine ⟨p, child, response, fun real => ⟨bound.responseLines_eq real, fun ks => ?_⟩⟩
  refine bound.mem_leafKeys_entriesBelow tag fun j first => ?_
  have start := gives.mono sub
  unfold Draft.Gives at start
  cases children : (t.run.graph.node p).children with
  | nil =>
    rw [children] at first
    cases first
  | cons schema rest =>
    rw [children] at start first
    exact Option.some.inj (Option.mem_def.mp first) ▸ gen.typed.explored start.1

end Build

/-! ## A list or an object -/

/-- An answer that is a list of objects, or an object with such a list. -/
def Document.listBranch : Document :=
  .answer (.object [("oneOf", .list
    [.arraySchema (.objectSchema [("x", .typeSchema "string")]),
      .objectSchema [("y", .arraySchema (.objectSchema [("z", .typeSchema "string")]))]])]) []

/-- The leaf below the object is bound, as it is reached by two fields that nothing shadows. -/
theorem listBranch_bound : ∃ c r text u,
    Ends (Build.collect .listBranch ["get:/a>**"]) (.ofDocument .listBranch) c r ∧
    Ends (Build.generate .listBranch c .default) r text u ∧
    ∃ t ops, Ends (Build.draft .listBranch c) r (t, ops) u ∧ ∃ o ∈ ops, ∃ p ∈ o.response,
      ["y", "z"] ∈ Entry.leafKeysOf (t.run.graph.entriesBelow (some c) p) ∧
      ∃ n ∈ c.selected, (t.run.graph.node n).isOpenLeaf = true ∧ t.run.graph.isStraight n = true ∧
        t.run.graph.keysOf n = ["y", "z"] := by
  have run : Ends.passes (Build.collect .listBranch ["get:/a>**"]) (.ofDocument .listBranch)
      (fun c r => Ends.passes (Build.generate .listBranch c .default) r (fun _ _ => true) &&
        Ends.passes (Build.draft .listBranch c) r fun x _ => decide
          (∃ o ∈ x.2, ∃ p ∈ o.response, (x.1.run.graph.node p).kind.isSyntheticResponse = false ∧
            ["y", "z"] ∈ Entry.leafKeysOf (x.1.run.graph.entriesBelow (some c) p))) = true := by
    decide +kernel
  obtain ⟨c, r, collected, both⟩ := Ends.of_passes run
  obtain ⟨generates, drafts⟩ := Bool.and_eq_true_iff.mp both
  obtain ⟨text, u, generated, -⟩ := Ends.of_passes generates
  obtain ⟨t, ops, -, drafted, -, responses⟩ := Build.leafKeys_of_generate collected generated
  obtain ⟨⟨t', ops'⟩, u', drafted', facts⟩ := Ends.of_passes drafts
  obtain ⟨same, -⟩ := drafted.unique drafted'
  cases same
  obtain ⟨o, mem, p, response, real, keys⟩ := of_decide_eq_true facts
  obtain ⟨p', -, response', bound⟩ := responses o mem
  obtain rfl : p' = p := Option.some.inj (response'.symm.trans (Option.mem_def.mp response))
  obtain ⟨n, selected, -, leaf⟩ := ((bound real).2 _).mp keys
  exact ⟨c, r, text, u, collected, generated, t, ops, drafted, o, mem, p', response, keys,
    n, selected, leaf⟩

/-- The leaf below the list is selected too, and no field on the way to it is shadowed, but it is
not bound. -/
theorem listBranch_unbound : ∃ c r text u,
    Ends (Build.collect .listBranch ["get:/a>**"]) (.ofDocument .listBranch) c r ∧
    Ends (Build.generate .listBranch c .default) r text u ∧
    ∃ t ops, Ends (Build.draft .listBranch c) r (t, ops) u ∧ ∃ o ∈ ops, ∃ p ∈ o.response,
      (t.run.graph.node p).kind.isSyntheticResponse = false ∧
      ∃ n ∈ c.selected, p ∈ t.run.graph.ancestors n ∧ (t.run.graph.node n).isOpenLeaf = true ∧
        (∀ a ∈ t.run.graph.chain n, t.run.graph.isShadowed a = false) ∧
        t.run.graph.keysOf n ∉ Entry.leafKeysOf (t.run.graph.entriesBelow (some c) p) := by
  have run : Ends.passes (Build.collect .listBranch ["get:/a>**"]) (.ofDocument .listBranch)
      (fun c r => Ends.passes (Build.generate .listBranch c .default) r (fun _ _ => true) &&
        Ends.passes (Build.draft .listBranch c) r fun x _ => decide
          (∃ o ∈ x.2, ∃ p ∈ o.response, (x.1.run.graph.node p).kind.isSyntheticResponse = false ∧
            ∃ n ∈ c.selected, p ∈ x.1.run.graph.ancestors n ∧
              (x.1.run.graph.node n).isOpenLeaf = true ∧
              (∀ a ∈ x.1.run.graph.chain n, x.1.run.graph.isShadowed a = false) ∧
              x.1.run.graph.keysOf n ∉
                Entry.leafKeysOf (x.1.run.graph.entriesBelow (some c) p))) = true := by
    decide +kernel
  obtain ⟨c, r, collected, both⟩ := Ends.of_passes run
  obtain ⟨generates, drafts⟩ := Bool.and_eq_true_iff.mp both
  obtain ⟨text, u, generated, -⟩ := Ends.of_passes generates
  obtain ⟨⟨t, ops⟩, u', drafted, facts⟩ := Ends.of_passes drafts
  obtain ⟨t', ops', drafted', -⟩ := Build.ends_generate generated
  obtain ⟨-, rfl⟩ := drafted'.unique drafted
  exact ⟨c, r, text, u, collected, generated, t, ops, drafted, of_decide_eq_true facts⟩

end RestGraph
