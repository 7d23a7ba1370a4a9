import RestGraph.Proofs.Graph.Drawn
import RestGraph.Proofs.Graph.Ids
import RestGraph.Proofs.Graph.Roots
import RestGraph.Proofs.Graph.Trails

/-!
# Siblings

Nodes below the same node have different ids: properties have names of their own, branches are
numbered or refer to different components, and an operation has one body and one response. Only
parameters may share a name, when they are sent in different places. Operations have ids of their
own as well.
-/

namespace RestGraph

variable {d : Document} {g : Graph} {p a b place place' : Nat} {n : Node} {j x : Json}

/-! ## Well-formed descriptions -/

namespace Json

/-- Whether the value, if it is an object, has each key once. -/
def hasDistinctKeys (j : Json) : Bool :=
  j.object?.all fun members => decide (members.map Prod.fst).Nodup

def branchKeys : List String := ["allOf", "oneOf", "anyOf"]

/-- Whether no list of branches refers to a component twice. -/
def repeatsNoBranch (j : Json) : Bool :=
  branchKeys.all fun key => decide ((((j.get? key).bind list?).getD []).filterMap ref?).Nodup

theorem passesMade_hasDistinctKeys : PassesMade hasDistinctKeys where
  response := by decide +kernel
  param := by decide +kernel
  keyword := rfl
  branch members keys := decide_eq_true (keys.nodup (by decide))

theorem passesMade_repeatsNoBranch : PassesMade repeatsNoBranch where
  response := by decide +kernel
  param := by decide +kernel
  keyword := by decide +kernel
  branch members keys := by
    have others : ∀ key ∈ branchKeys, key ∉ madeKeys := by decide
    refine List.all_eq_true.mpr fun key mem => ?_
    rw [get?_of_madeKeys keys (others key mem)]
    rfl

end Json

/-- Every object of the description has each key once. -/
def Document.HasDistinctKeys (d : Document) : Prop := d.root.everywhere Json.hasDistinctKeys = true

/-- No list of branches in the description refers to a component twice. -/
def Document.RepeatsNoBranch (d : Document) : Prop := d.root.everywhere Json.repeatsNoBranch = true

instance : Decidable d.HasDistinctKeys := inferInstanceAs (Decidable (_ = true))

instance : Decidable d.RepeatsNoBranch := inferInstanceAs (Decidable (_ = true))

/-! ## Fields and branches -/

/-- Where keys are distinct everywhere, they are so in a member. -/
theorem Json.nodup_keys_of_get? {key : String} {members : List (String × Json)}
    (keys : j.everywhere hasDistinctKeys = true)
    (found : (j.get? key).bind object? = some members) : (members.map Prod.fst).Nodup := by
  obtain ⟨x, got, object⟩ := Option.bind_eq_some_iff.mp found
  have own := everywhere_self (everywhere_within keys (within_of_get? got))
  rw [hasDistinctKeys, object] at own
  exact of_decide_eq_true own

/-- An object has one property of each name. -/
theorem nodup_sortedProperties (keys : j.everywhere Json.hasDistinctKeys = true) :
    ((sortedProperties j).map Prod.fst).Nodup := by
  unfold sortedProperties
  rw [((Text.sortByName_perm _ _).map Prod.fst).nodup_iff]
  cases found : (j.get? "properties").bind Json.object? with
  | none => exact List.nodup_nil
  | some members => exact Json.nodup_keys_of_get? keys found

/-- The branches of a composition refer to different components. -/
theorem nodup_refs_branchesOf (refs : j.repeatsNoBranch = true) {keys : List String}
    (sub : ∀ key ∈ keys, key ∈ Json.branchKeys) :
    ((branchesOf j keys).filterMap Json.ref?).Nodup := by
  have declared : (((keys.findSome? (Shape.branches? j)).getD []).filterMap Json.ref?).Nodup := by
    cases found : keys.findSome? (Shape.branches? j) with
    | none => exact List.nodup_nil
    | some branches =>
      obtain ⟨key, mem, found⟩ := List.exists_of_findSome?_eq_some found
      have own := of_decide_eq_true (List.all_eq_true.mp refs key (sub key mem))
      rwa [(Option.filter_eq_some_iff.mp found).1] at own
  unfold branchesOf
  dsimp only
  split
  · exact declared
  · next properties _ =>
    have noRef : ∀ required : List (String × Json), (required.map Prod.fst).Sublist ["required"] →
        (Json.object ([("type", .text "object"), ("properties", properties)] ++ required)).ref? =
          none := fun required keys => by
      rw [Json.ref?, Json.textAt?, Json.get?_of_madeKeys ?_ (by decide)]
      · rfl
      · rw [List.map_append]
        exact keys.append_left ["type", "properties"]
    split <;> rw [List.filterMap_append, List.filterMap_cons_none (noRef _ (by simp)),
      List.filterMap_nil, List.append_nil] <;> exact declared

/-- Branches at different places that refer to components refer to different ones. -/
theorem eq_of_ref? {pointer : String} {js : List Json} (distinct : (js.filterMap Json.ref?).Nodup)
    (here : js[place]? = some j) (there : js[place']? = some x) (ref : j.ref? = some pointer)
    (ref' : x.ref? = some pointer) : place = place' := by
  induction js generalizing place place' with
  | nil => cases here
  | cons first rest ih =>
    -- a reference that comes first does not come again
    have later : ∀ {y : Json} {k : Nat}, rest[k]? = some y → y.ref? = some pointer →
        first.ref? ≠ some pointer := by
      intro y k at_ ref same
      rw [List.filterMap_cons_some same, List.nodup_cons] at distinct
      exact distinct.1 (List.mem_filterMap.mpr ⟨y, List.mem_of_getElem? at_, ref⟩)
    have tail : (rest.filterMap Json.ref?).Nodup := distinct.sublist
      ((List.sublist_cons_self first rest).filterMap Json.ref?)
    cases place <;> cases place'
    · rfl
    · cases here
      exact absurd ref (later there ref')
    · cases there
      exact absurd ref' (later here ref)
    · exact congrArg Nat.succ (ih tail here there)

/-! ## Seeds of branches -/

/-- The keys under which a composition lists its branches. -/
theorem Document.exists_branchKeys (d : Document) (composition : n.kind.isComposition = true) :
    ∃ keys, (∀ key ∈ keys, key ∈ Json.branchKeys) ∧
      ∀ place, d.fragmentAt? n place = (branchesOf n.schema keys)[place]? := by
  cases kind : n.kind <;> rw [kind] at composition <;> try cases composition
  · refine ⟨["allOf"], by decide, fun place => ?_⟩
    rw [Document.fragmentAt?, kind]
  · refine ⟨["oneOf", "anyOf"], by decide, fun place => ?_⟩
    rw [Document.fragmentAt?, kind]

/-- The branches of a composition are told apart by their number. -/
theorem ChildNames.discriminant_of_composition (composition : n.kind.isComposition = true) :
    (ChildNames.below n).discriminant =
      "[" ++ (n.scope ++ "#" ++ toString n.children.length) ++ "]" := by
  cases kind : n.kind <;> rw [kind] at composition <;> try cases composition
  · simp [ChildNames.below, kind, ChildNames.anonymous]
  · simp [ChildNames.below, kind, ChildNames.anonymous]

/-- A kind made for a shape is labelled as no reference and no property. -/
theorem Kind.label_of_kindOfShape? {shape : Shape} {k : Kind}
    (made : Build.kindOfShape? shape = some k) : k.label ≠ "ref" ∧ k.label ≠ "circular" ∧
      k.isProperty = false := by
  cases shape <;> cases made <;> refine ⟨?_, ?_, rfl⟩ <;> simp [Kind.label]

/-- Branches at different places are seeds with different ids. -/
theorem Node.place_of_seed {s s' : Seed} (composition : n.kind.isComposition = true)
    (distinct : ∀ {pointer}, j.ref? = some pointer → x.ref? = some pointer → place = place')
    (le : place ≤ n.children.length) (le' : place' ≤ n.children.length)
    (made : (n.upTo place).seedBelow? j = some s) (made' : (n.upTo place').seedBelow? x = some s')
    (same : s.id = s'.id) : place = place' := by
  have numbered : ∀ {k}, k ≤ n.children.length → (ChildNames.below (n.upTo k)).discriminant =
      "[" ++ (n.scope ++ "#" ++ toString k) ++ "]" := fun {k} le => by
    rw [ChildNames.discriminant_of_composition (n := n.upTo k) composition]
    simp [Node.upTo, le]
  obtain ⟨-, -, ⟨pointer, shape, kind, disc⟩ | ⟨kind, disc⟩⟩ := Node.seedBelow?_spec made <;>
    obtain ⟨-, -, ⟨pointer', shape', kind', disc'⟩ | ⟨kind', disc'⟩⟩ := Node.seedBelow?_spec made'
  · rw [Seed.id, Seed.id, kind, kind'] at same
    have pointers := (Kind.idOf_inj rfl rfl same).2
    rw [disc, disc'] at pointers
    exact distinct (Shape.ref?_of_reference shape) (pointers ▸ Shape.ref?_of_reference shape')
  · obtain ⟨noRef, -, plain⟩ := Kind.label_of_kindOfShape? kind'
    rw [Seed.id, Seed.id, kind] at same
    exact absurd (Kind.idOf_inj rfl plain same).1.symm noRef
  · obtain ⟨noRef, -, plain⟩ := Kind.label_of_kindOfShape? kind
    rw [Seed.id, Seed.id, kind'] at same
    exact absurd (Kind.idOf_inj plain rfl same).1 noRef
  · obtain ⟨-, -, plain⟩ := Kind.label_of_kindOfShape? kind
    obtain ⟨-, -, plain'⟩ := Kind.label_of_kindOfShape? kind'
    have numbers := (Kind.idOf_inj plain plain' same).2
    rw [disc, disc', numbered le, numbered le'] at numbers
    exact numbered_discriminant_inj numbers

/-- A schema node has the id of its seed, or closes a cycle to that id. -/
theorem Node.StemsFrom.id_eq {s : Seed} (stems : n.StemsFrom s) (schema : s.kind.isSchema = true) :
    n.id = s.id ∨ ∃ target, n.id = idOf (.circular target) s.id := by
  rcases stems.kind with ⟨turns, same⟩ | ⟨circular, same⟩
  · rw [Node.id, turns.eq_of_not_isProperty (Kind.not_isProperty_of_isSchema schema), same]
    exact .inl rfl
  · cases kind : n.kind <;> rw [kind] at circular <;> try cases circular
    rw [Node.id, kind, same]
    exact .inr ⟨_, rfl⟩

/-- The seeds of two nodes with one id have one id. -/
theorem Node.seed_id_eq {n' : Node} {s s' : Seed} (stems : n.StemsFrom s) (stems' : n'.StemsFrom s')
    (open_ : s.kind.label ≠ "circular" ∧ s.kind.isSchema = true)
    (open' : s'.kind.label ≠ "circular" ∧ s'.kind.isSchema = true) (same : n.id = n'.id) :
    s.id = s'.id := by
  have plain := Kind.not_isProperty_of_isSchema open_.2
  have plain' := Kind.not_isProperty_of_isSchema open'.2
  rcases stems.id_eq open_.2 with id | ⟨target, id⟩ <;>
    rcases stems'.id_eq open'.2 with id' | ⟨target', id'⟩ <;> rw [id, id'] at same
  · exact same
  · exact absurd (Kind.idOf_inj plain rfl same).1 open_.1
  · exact absurd (Kind.idOf_inj rfl plain' same).1.symm open'.1
  · exact (Kind.idOf_inj rfl rfl same).2

/-- Whether a node of the kind stands for a component, or for the end of a cycle. -/
def Kind.refers : Kind → Bool
  | reference _ | circular _ => true
  | _ => false

/-- A node made from a reference is one, or closes a cycle. -/
theorem Node.StemsFrom.refers {n' : Node} {s : Seed} {pointer : String} (stems : n'.StemsFrom s)
    (made : n.seedBelow? j = some s) (ref : j.ref? = some pointer) : n'.kind.refers = true := by
  rcases stems.kind with ⟨turns, -⟩ | ⟨circular, -⟩
  · rw [turns.eq_of_not_isProperty
      (Kind.not_isProperty_of_isSchema (Node.seedBelow?_isSchema made))]
    obtain ⟨-, -, ⟨_, -, kind, -⟩ | ⟨kind, -⟩⟩ := Node.seedBelow?_spec made
    · rw [kind]
      rfl
    · rw [Shape.ofSchema_of_ref? ref] at kind
      cases kind
  · cases kind : n'.kind <;> rw [kind] at circular <;> first | rfl | cases circular

theorem Node.seedBelow?_not_circular {s : Seed} (made : n.seedBelow? j = some s) :
    s.kind.label ≠ "circular" := by
  obtain ⟨-, -, ⟨pointer, -, kind, -⟩ | ⟨kind, -⟩⟩ := Node.seedBelow?_spec made
  · rw [kind]
    simp [Kind.label]
  · exact (Kind.label_of_kindOfShape? kind).2.1

/-! ## Siblings -/

namespace Graph

theorem Derived.field_of_child (derived : g.Derived d) (forest : g.Forest)
    (object : (g.node p).kind.tag = .object) (child : (g.node p).children[place]? = some a) :
    ∃ name schema, (sortedProperties (g.node p).schema)[place]? = some (name, schema) ∧
      ∃ shape required, (g.node a).kind = .property shape required ∧
        (g.node a).discriminant = name ∧ (g.node a).name = name := by
  obtain ⟨synthetic, kind⟩ : ∃ synthetic, (g.node p).kind = .object synthetic := by
    cases kind : (g.node p).kind <;> rw [kind] at object <;> try cases object
    exact ⟨_, rfl⟩
  have prop : (g.node a).kind.isProperty = true := by
    have admits := forest.admits (List.mem_of_getElem? child)
    rwa [kind] at admits
  obtain ⟨shape, required, kind'⟩ := Kind.eq_property_of_isProperty prop
  cases derived.child child with
  | part tag =>
    rw [object] at tag
    cases tag
  | schema _ made stems =>
    have schema := stems.isSchema (Node.seedBelow?_isSchema made)
    rw [Kind.not_isProperty_of_isSchema schema] at prop
    cases prop
  | @prop name schema _ _ _ here _ _ named disc _ _ stems =>
    refine ⟨name, schema, ?_, shape, required, kind', ?_, stems.name.trans named⟩
    · rw [Node.propAt?, kind] at here
      exact here
    · rcases stems.kind with ⟨-, same⟩ | ⟨circular, -⟩
      · exact same.trans disc
      · rw [kind'] at circular
        cases circular
  | closing owner =>
    rw [kind] at owner
    rcases owner with array | circular
    · cases array
    · cases circular

theorem Derived.branch_of_child (derived : g.Derived d) (forest : g.Forest)
    (composition : (g.node p).kind.isComposition = true)
    (child : (g.node p).children[place]? = some a) :
    ∃ f s, d.fragmentAt? (g.node p) place = some f ∧
      ((g.node p).upTo place).seedBelow? f = some s ∧ (g.node a).StemsFrom s := by
  have other : (g.node p).kind.isOwner = false ∧ (g.node p).kind.isProperty = false ∧
      (g.node p).kind.tag ≠ .operation ∧ (g.node p).kind.isArray = false ∧
      (g.node p).kind.isCircular = false := by
    cases kind : (g.node p).kind <;> rw [kind] at composition <;>
      first | exact ⟨rfl, rfl, Tag.noConfusion, rfl, rfl⟩ | cases composition
  cases derived.child child with
  | part tag => exact absurd tag other.2.2.1
  | @schema f s holds made stems =>
    cases holds with
    | own here => exact ⟨f, s, here, made, stems⟩
    | @wrapped owner k _ _ above here =>
      have admits := forest.admits (List.mem_of_getElem? above)
      have owns := Node.isOwner_of_propAt? here
      cases kind : (g.node owner).kind <;> rw [kind] at owns admits <;> try cases owns
      · rw [Kind.admits, other.2.1] at admits
        cases admits
      · next shape _ =>
        cases shape <;> try cases owns
        rw [Kind.admits, other.2.1] at admits
        cases admits
  | prop here =>
    rw [Node.isOwner_of_propAt? here] at other
    cases other.1
  | closing owner =>
    rw [other.2.2.2.1, other.2.2.2.2] at owner
    rcases owner with array | circular
    · cases array
    · cases circular

/-- The only child of a narrow node is its first. -/
theorem Forest.child_of_narrow (forest : g.Forest) (narrow : (g.node p).kind.isNarrow = true)
    (child : a ∈ (g.node p).children) : (g.node p).children[0]? = some a := by
  have one := forest.narrow narrow
  match children : (g.node p).children with
  | [] =>
    rw [children] at child
    cases child
  | [_] =>
    rw [children, List.mem_singleton] at child
    exact congrArg some child.symm
  | _ :: _ :: _ =>
    rw [children] at one
    simp at one

/-- Parts of one operation with the same id are the same, unless they are parameters. -/
theorem Forest.eq_of_part_id (forest : g.Forest) {method : Method} {path : String}
    {shared : List Json} (operation : (g.node p).kind = .operation method path shared)
    (ha : a ∈ (g.node p).children) (hb : b ∈ (g.node p).children) (same : g.idAt a = g.idAt b)
    (other : (g.node a).kind.tag ≠ .param) : a = b := by
  have admits := forest.admits ha
  have admits' := forest.admits hb
  rw [operation] at admits admits'
  have labels : (g.node a).kind.label = (g.node b).kind.label := by
    refine (Kind.idOf_inj ?_ ?_ same).1
    · cases kind : (g.node a).kind <;> rw [kind] at admits <;> first | rfl | cases admits
    · cases kind : (g.node b).kind <;> rw [kind] at admits' <;> first | rfl | cases admits'
  have both : (g.node a).kind.tag = (g.node b).kind.tag ∧ (g.node a).kind.tag.isSingle = true := by
    cases ka : (g.node a).kind <;> rw [ka] at admits other labels <;>
      cases kb : (g.node b).kind <;> rw [kb] at admits' labels <;>
      first
        | exact ⟨rfl, rfl⟩
        | exact Bool.noConfusion admits
        | exact Bool.noConfusion admits'
        | exact absurd rfl other
        | exact absurd labels (by simp [Kind.label])
  exact forest.single ha hb both.1 both.2

/-- Where no key stands twice, properties with one name stand at one place. -/
theorem Derived.place_of_name (derived : g.Derived d) (forest : g.Forest) (keys : d.HasDistinctKeys)
    (inside : p < g.size) (open_ : ¬(g.node p).kind.IsBare) {name : String}
    (here : (sortedProperties (g.node p).schema)[place]? = some (name, j))
    (there : (sortedProperties (g.node p).schema)[place']? = some (name, x)) : place = place' := by
  have passes := (derived.passes forest Json.passesMade_hasDistinctKeys keys open_ inside).schema
  refine (List.getElem?_inj ?_ (nodup_sortedProperties passes)).mp ?_
  · rw [List.length_map]
    exact (List.getElem?_eq_some_iff.mp here).1
  · rw [List.getElem?_map, List.getElem?_map, here, there]
    rfl

/-- Fields of one object with the same id stand at one place. -/
theorem Derived.place_of_field_id (derived : g.Derived d) (forest : g.Forest)
    (keys : d.HasDistinctKeys) (object : (g.node p).kind.tag = .object)
    (here : (g.node p).children[place]? = some a) (there : (g.node p).children[place']? = some b)
    (same : g.idAt a = g.idAt b) : place = place' := by
  obtain ⟨name, _, at_, shape, required, ka, disc, -⟩ := derived.field_of_child forest object here
  obtain ⟨name', _, at', shape', required', kb, disc', -⟩ :=
    derived.field_of_child forest object there
  have names : name = name' := by
    rw [idAt, idAt, Node.id, Node.id, ka, kb, disc, disc'] at same
    exact Kind.idOf_property_inj same
  have open_ : ¬(g.node p).kind.IsBare := Kind.not_isBare_of_isOwner (by
    cases kind : (g.node p).kind <;> rw [kind] at object <;> first | rfl | cases object)
  exact derived.place_of_name forest keys (lt_size_of_child (List.mem_of_getElem? here)) open_ at_
    (names ▸ at')

/-- Branches of one composition with the same id stand at one place, unless they refer to one
component. -/
theorem Derived.place_of_branch_id (derived : g.Derived d) (forest : g.Forest)
    (composition : (g.node p).kind.isComposition = true)
    (here : (g.node p).children[place]? = some a) (there : (g.node p).children[place']? = some b)
    (same : g.idAt a = g.idAt b)
    (refs : d.RepeatsNoBranch ∨ (g.node a).kind.refers = false) : place = place' := by
  obtain ⟨f, s, at_, made, stems⟩ := derived.branch_of_child forest composition here
  obtain ⟨f', s', at', made', stems'⟩ := derived.branch_of_child forest composition there
  have ids := Node.seed_id_eq stems stems'
    ⟨Node.seedBelow?_not_circular made, Node.seedBelow?_isSchema made⟩
    ⟨Node.seedBelow?_not_circular made', Node.seedBelow?_isSchema made'⟩ same
  obtain ⟨branchKeys, sub, fragments⟩ := d.exists_branchKeys composition
  have open_ : ¬(g.node p).kind.IsBare := Kind.not_isBare_of_isKeyed (by
    cases kind : (g.node p).kind <;> rw [kind] at composition <;> first | rfl | cases composition)
  rw [fragments] at at_ at'
  refine Node.place_of_seed composition (fun ref ref' => ?_)
    (List.getElem?_eq_some_iff.mp here).1.le (List.getElem?_eq_some_iff.mp there).1.le
      made made' ids
  rcases refs with refs | other
  · have passes := Json.everywhere_self (derived.passes forest Json.passesMade_repeatsNoBranch refs
      open_ (lt_size_of_child (List.mem_of_getElem? here))).schema
    exact eq_of_ref? (nodup_refs_branchesOf passes sub) at_ at' ref ref'
  · rw [stems.refers made ref] at other
    cases other

/-- Children of one node with the same id are the same, unless they are parameters or branches that
refer to one component. -/
theorem Derived.eq_of_id (derived : g.Derived d) (forest : g.Forest) (keys : d.HasDistinctKeys)
    (ha : a ∈ (g.node p).children) (hb : b ∈ (g.node p).children) (same : g.idAt a = g.idAt b)
    (other : (g.node a).kind.tag ≠ .param)
    (refs : d.RepeatsNoBranch ∨ (g.node a).kind.refers = false) : a = b := by
  cases narrow : (g.node p).kind.isNarrow with
  | true =>
    exact Option.some.inj
      ((forest.child_of_narrow narrow ha).symm.trans (forest.child_of_narrow narrow hb))
  | false =>
    obtain ⟨place, here⟩ := List.mem_iff_getElem?.mp ha
    obtain ⟨place', there⟩ := List.mem_iff_getElem?.mp hb
    have places : place = place' → a = b := by
      rintro rfl
      exact Option.some.inj (here.symm.trans there)
    cases kind : (g.node p).kind with
    | operation => exact forest.eq_of_part_id kind ha hb same other
    | object synthetic =>
      exact places (derived.place_of_field_id forest keys (by rw [kind]; rfl) here there same)
    | composed | union =>
      exact places (derived.place_of_branch_id forest (by rw [kind]; rfl) here there same refs)
    | scalar | enum | circular =>
      have admits := forest.admits ha
      rw [kind] at admits
      cases admits
    | _ =>
      rw [kind] at narrow
      cases narrow

end Graph

/-! ## Operations -/

theorem Method.key_inj {m m' : Method} (same : m.key = m'.key) : m = m' := by
  have back := Method.ofKey?_key m
  rw [same, Method.ofKey?_key, Option.some.injEq] at back
  exact back.symm

def OperationEntry.id (e : OperationEntry) : String := (Graph.operationSeed e "").id

theorem OperationEntry.id_inj {e e' : OperationEntry} (same : e.id = e'.id) :
    e.method = e'.method ∧ e.path = e'.path := by
  obtain ⟨label, path⟩ := Kind.idOf_inj rfl rfl same
  exact ⟨Method.key_inj label, path⟩

namespace Document

/-- The operation that a path item declares for a method. -/
theorem eq_of_itemOperation {path : String} {shared : List Json} {method : Method}
    {operation : Option Json} {e : OperationEntry}
    (made : (match operation with
      | some operation =>
        if operation.isObject then some ⟨method, path, operation, shared⟩ else none
      | none => none) = some e) : e.method = method ∧ e.path = path := by
  split at made
  · split at made <;> cases made
    exact ⟨rfl, rfl⟩
  · cases made

theorem nodup_ids_itemOperations (path : String) (item : Json) :
    ((itemOperations path item).map OperationEntry.id).Nodup := by
  unfold itemOperations
  dsimp only
  rw [List.map_filterMap]
  refine List.Nodup.filterMap (fun method method' id mem mem' => ?_) (by decide)
  obtain ⟨e, made, rfl⟩ := Option.map_eq_some_iff.mp mem
  obtain ⟨e', made', same⟩ := Option.map_eq_some_iff.mp mem'
  rw [← (eq_of_itemOperation made).1, ← (eq_of_itemOperation made').1]
  exact (OperationEntry.id_inj same).1.symm

theorem path_of_mem_itemOperations {path : String} {item : Json} {e : OperationEntry}
    (mem : e ∈ itemOperations path item) : e.path = path := by
  obtain ⟨method, -, made⟩ := List.mem_filterMap.mp mem
  exact (eq_of_itemOperation made).2

/-- Operations have different ids. -/
theorem nodup_ids_operations (keys : d.HasDistinctKeys) :
    (d.operations.map OperationEntry.id).Nodup := by
  have paths : ((((d.root.get? "paths").bind Json.object?).getD []).map Prod.fst).Nodup := by
    cases found : (d.root.get? "paths").bind Json.object? with
    | none => exact List.nodup_nil
    | some members => exact Json.nodup_keys_of_get? keys found
  rw [operations, List.map_flatMap, List.nodup_flatMap]
  refine ⟨fun x _ => nodup_ids_itemOperations x.1 x.2, ?_⟩
  refine (List.pairwise_map.mp paths).imp fun {x y} apart => ?_
  refine List.disjoint_left.mpr fun id mem mem' => ?_
  obtain ⟨e, own, rfl⟩ := List.mem_map.mp mem
  obtain ⟨e', own', same⟩ := List.mem_map.mp mem'
  refine apart ?_
  rw [← path_of_mem_itemOperations own, ← path_of_mem_itemOperations own']
  exact (OperationEntry.id_inj same).2.symm

end Document

namespace Graph

theorem ids_addOperations (inside : ∀ i ∈ g.roots, i < g.size) (taken : List String)
    (entries : List OperationEntry) :
    (g.addOperations taken entries).roots.map (g.addOperations taken entries).idAt =
      g.roots.map g.idAt ++ entries.map OperationEntry.id := by
  induction entries generalizing g taken with
  | nil => rw [addOperations, List.map_nil, List.append_nil]
  | cons e rest ih =>
    have old : ∀ {s : Seed}, ∀ a ∈ g.roots, (g.addRoot s).idAt a = g.idAt a := fun a mem => by
      rw [idAt, idAt, node_addRoot, if_neg (inside a mem).ne]
    have new : ∀ {s : Seed}, (g.addRoot s).idAt g.size = s.id := by
      intro s
      rw [idAt, node_addRoot, if_pos rfl]
      rfl
    have roots : ∀ {s : Seed}, (g.addRoot s).roots = g.roots ++ [g.size] := rfl
    rw [addOperations, ih, roots, List.map_append, List.map_congr_left old, List.map_singleton, new,
      List.append_assoc]
    · rfl
    · intro i mem
      rw [size_addRoot]
      rcases List.mem_append.mp mem with mem | mem
      · exact (inside i mem).trans (Nat.lt_succ_self _)
      · rw [List.mem_singleton.mp mem]
        exact Nat.lt_succ_self _

/-- The roots of a graph have ids of their own. -/
theorem nodup_rootIds (keys : d.HasDistinctKeys) (moves : Moves d (ofDocument d) g) :
    (g.roots.map g.idAt).Nodup := by
  have start : (ofDocument d).roots.map (ofDocument d).idAt = d.operations.map OperationEntry.id :=
    ids_addOperations (fun i mem => absurd mem List.not_mem_nil) _ _
  have rooted := ofDocument_rooted d
  have same : ∀ i ∈ (ofDocument d).roots, g.idAt i = (ofDocument d).idAt i := fun i mem => by
    have inside := rooted.inside i mem
    have keeps := moves.extends.keeps inside
    have operation := ((ofDocument_derived d).root inside ((rooted.top inside).mpr mem)).tag
    rw [idAt, idAt, Node.id, Node.id, keeps.discriminant, keeps.kind.eq_of_not_isProperty]
    cases kind : ((ofDocument d).node i).kind <;> rw [kind] at operation <;> cases operation
    rfl
  rw [moves.extends.roots, List.map_congr_left same, start]
  exact d.nodup_ids_operations keys

end Graph

end RestGraph
