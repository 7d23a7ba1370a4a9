import RestGraph.Proofs.Document.Following
import RestGraph.Proofs.Graph.Origins

/-!
# Drawn from the description

A node is made from a fragment that was found in the description, or from one of the few that are
made up where the description has none. A test that holds everywhere in the description, and of what
is made up, therefore holds of every fragment in the graph. Leaves that stand in for something
unknown are left out; nothing is made from their fragments.
-/

namespace RestGraph

variable {d : Document} {g : Graph} {p : Json → Bool} {i : Nat} {n : Node} {j x : Json}

/-- The keys of an object that is made up. -/
def Json.madeKeys : List String := ["type", "properties", "required"]

theorem Json.get?_of_madeKeys {members : List (String × Json)}
    (keys : (members.map Prod.fst).Sublist madeKeys) {key : String} (other : key ∉ madeKeys) :
    (Json.object members).get? key = none := by
  refine List.lookup_eq_none_iff.mpr fun entry mem => ?_
  rw [bne_iff_ne]
  rintro rfl
  exact other (keys.subset (List.mem_map_of_mem mem))

/-- A test that fragments pass which are made up from what passes it. -/
structure Json.PassesMade (p : Json → Bool) : Prop where
  response : syntheticSchema.everywhere p = true
  param : defaultParamSchema.everywhere p = true
  keyword : p (.text "object") = true
  branch : ∀ members : List (String × Json), (members.map Prod.fst).Sublist Json.madeKeys →
    p (.object members) = true

namespace Json.PassesMade

/-- The branch for the properties beside the other branches is put together from the fragment. -/
theorem of_mem_branchesOf (made : PassesMade p) {keys : List String} {schema : Json}
    (passes : schema.everywhere p = true) (branch : x ∈ branchesOf schema keys) :
    x.everywhere p = true := by
  obtain ⟨_, -, _, found, mem⟩ | ⟨properties, found, rfl⟩ := mem_branchesOf branch
  · exact everywhere_within passes (within_of_mem_branches found mem)
  · have inner := everywhere_within passes (within_of_get? found)
    have keyword : (Json.text "object").everywhere p = true := made.keyword
    rw [everywhere, Bool.and_eq_true]
    cases got : schema.get? "required" with
    | some required =>
      refine ⟨made.branch _ (.refl _), ?_⟩
      simp [everywhereMembers, keyword, inner, everywhere_within passes (within_of_get? got)]
    | none =>
      refine ⟨made.branch _ (by simp [madeKeys]), ?_⟩
      simp [everywhereMembers, keyword, inner]

end Json.PassesMade

/-- The fragment that decides a shape was found in the description or is the one given. -/
theorem Document.Decides.passes (root : d.root.everywhere p = true)
    (decides : d.Decides j x) (passes : j.everywhere p = true) : x.everywhere p = true := by
  rcases decides.eq_or_within with rfl | inside
  · exact passes
  · exact Json.everywhere_within root inside

/-- What a node holds for its children passes what its own fragment passes. -/
theorem Document.fragmentAt?_passes (made : Json.PassesMade p) (root : d.root.everywhere p = true)
    (passes : n.schema.everywhere p = true) {place : Nat} (here : d.fragmentAt? n place = some j) :
    j.everywhere p = true := by
  unfold fragmentAt? at here
  split at here
  · exact Json.everywhere_within root (within_of_lookup? here)
  · cases here
    split
    · next got => exact Json.everywhere_within passes (Json.within_of_get? got)
    · cases media : Media.schema? n.schema with
      | none => exact made.param
      | some schema => exact Json.everywhere_within passes (Media.within_of_schema? media)
  · cases here
    exact passes
  · cases here
    exact passes
  · exact Json.everywhere_within passes (within_of_itemsOf? here)
  · exact made.of_mem_branchesOf passes (List.mem_of_getElem? here)
  · exact made.of_mem_branchesOf passes (List.mem_of_getElem? here)
  · cases here

theorem Node.propAt?_passes (passes : n.schema.everywhere p = true) {place : Nat} {name : String}
    (here : n.propAt? place = some (name, j)) : j.everywhere p = true := by
  unfold propAt? at here
  split at here
  · exact Json.everywhere_within passes (within_of_mem_sortedProperties (List.mem_of_getElem? here))
  · obtain ⟨items, found, same⟩ := Option.map_eq_some_iff.mp here
    cases same
    exact Json.everywhere_within passes (within_of_itemsOf? found)
  · cases here

/-- The fragment of a node passes a test, and so do the parameters that it has from its path. -/
structure Node.Passes (p : Json → Bool) (n : Node) : Prop where
  schema : n.schema.everywhere p = true
  shared : ∀ j ∈ n.kind.shared, j.everywhere p = true

theorem Document.Offers.passes (made : Json.PassesMade p) (root : d.root.everywhere p = true)
    (offered : d.Offers n j) (passes : n.Passes p) : j.everywhere p = true := by
  obtain ⟨whole, rfl | rfl | shared | rfl, inside⟩ := offered
  · exact Json.everywhere_within root inside
  · exact Json.everywhere_within passes.schema inside
  · exact Json.everywhere_within (passes.shared _ shared) inside
  · exact Json.everywhere_within made.response inside

theorem Kind.not_isBare_of_isOwner {k : Kind} (owner : k.isOwner = true) : ¬k.IsBare := by
  rintro (circular | ⟨type, rfl⟩ | ⟨type, required, rfl⟩)
  · cases k with
    | property shape =>
      cases shape <;> first | exact Bool.noConfusion owner | exact Bool.noConfusion circular
    | _ => first | exact Bool.noConfusion owner | exact Bool.noConfusion circular
  · cases owner
  · cases owner

/-- Only operations have parameters from their paths. -/
@[simp]
theorem Kind.shared_of_not_operation {k : Kind} (other : k.tag ≠ .operation) : k.shared = [] := by
  cases k <;> first | rfl | exact absurd rfl other

/-- No operation stands below another node. -/
theorem Kind.not_operation_of_admits {k c : Kind} (admits : k.admits c = true) :
    c.tag ≠ .operation := fun tag => by
  cases c <;> cases tag
  cases k with
  | property shape => cases shape <;> cases admits
  | _ => cases admits

namespace Graph

/-- A test that holds everywhere in the description holds of what a node holds for its child. -/
theorem Holds.passes {q place : Nat} (holds : g.Holds d q place j) (forest : g.Forest)
    (made : Json.PassesMade p) (root : d.root.everywhere p = true)
    (above : ∀ a ≤ q, ¬(g.node a).kind.IsBare → a < g.size → (g.node a).Passes p)
    (open_ : ¬(g.node q).kind.IsBare) (inside : q < g.size) : j.everywhere p = true := by
  cases holds with
  | own here =>
    exact Document.fragmentAt?_passes made root (above q le_rfl open_ inside).schema here
  | @wrapped owner k name _ child here =>
    have mem := List.mem_of_getElem? child
    have bare := Kind.not_isBare_of_isOwner (Node.isOwner_of_propAt? here)
    have lt := (forest.below mem).1
    exact Node.propAt?_passes (above owner lt.le bare (lt.trans inside)).schema here

/-- A test that holds everywhere in the description holds of every fragment in the graph. -/
theorem Derived.passes (derived : g.Derived d) (forest : g.Forest) (made : Json.PassesMade p)
    (root : d.root.everywhere p = true) (open_ : ¬(g.node i).kind.IsBare) (inside : i < g.size) :
    (g.node i).Passes p := by
  induction i using Nat.strongRecOn with
  | ind i ih =>
    cases parent : (g.node i).parent with
    | none =>
      have lists := derived.root inside parent
      exact ⟨Json.everywhere_within root lists.schema,
        fun j mem => Json.everywhere_within root (lists.shared j mem)⟩
    | some q =>
      have child := forest.child parent
      have lt := forest.parent_lt parent
      have above : ∀ a ≤ q, ¬(g.node a).kind.IsBare → a < g.size → (g.node a).Passes p :=
        fun a le open_ inside => ih a (by omega) open_ inside
      have openAbove := forest.open_of_child child open_
      have insideAbove := lt.trans inside
      have shared : (g.node i).kind.shared = [] :=
        Kind.shared_of_not_operation (Kind.not_operation_of_admits (forest.admits child))
      refine ⟨?_, fun j mem => by rw [shared] at mem; cases mem⟩
      cases derived.child_of_mem child with
      | part _ offered => exact offered.passes made root (above q le_rfl openAbove insideAbove)
      | schema holds seed stems =>
        rw [stems.schema, (Node.seedBelow?_spec seed).1]
        exact holds.passes forest made root above openAbove insideAbove
      | prop here decides _ _ _ from_ _ stems =>
        rw [stems.schema, from_]
        exact decides.passes root
          (Node.propAt?_passes (above q le_rfl openAbove insideAbove).schema here)
      | closing _ bare => exact absurd bare open_

end Graph

theorem Kind.not_isBare_reference (pointer : String) : ¬(reference pointer).IsBare := by
  rintro (circular | ⟨_, scalar⟩ | ⟨_, _, prop⟩)
  · cases circular
  · cases scalar
  · cases prop

/-- The fragment of a schema node says what kind of node it is. -/
theorem Graph.Derived.shape (derived : g.Derived d) (forest : g.Forest) (inside : i < g.size)
    (schema : (g.node i).kind.isSchema = true) (open_ : ¬(g.node i).kind.IsBare) :
    (∃ pointer, Shape.ofSchema (g.node i).schema = .reference pointer ∧
      (g.node i).kind = .reference pointer) ∨
    Build.kindOfShape? (Shape.ofSchema (g.node i).schema) = some (g.node i).kind := by
  obtain ⟨_, _, _, seed, stems⟩ := derived.seed_of_isSchema forest inside schema open_
  rw [(stems.eq_kind open_).1, stems.schema]
  obtain ⟨same, -, ⟨pointer, shape, made, -⟩ | ⟨made, -⟩⟩ := Node.seedBelow?_spec seed
  · exact .inl ⟨pointer, same ▸ shape, made⟩
  · exact .inr (same ▸ made)

/-- The pointer of a reference stands in the fragment. -/
theorem Graph.Derived.ref?_of_reference (derived : g.Derived d) (forest : g.Forest)
    {pointer : String} (kind : (g.node i).kind = .reference pointer) :
    (g.node i).schema.ref? = some pointer := by
  have inside : i < g.size := lt_size_of_not_array (by rw [kind]; rfl)
  obtain ⟨target, shape, same⟩ | made := derived.shape forest inside (by rw [kind]; rfl)
    (kind ▸ Kind.not_isBare_reference pointer)
  · rw [kind, Kind.reference.injEq] at same
    exact same ▸ Shape.ref?_of_reference shape
  · rw [kind] at made
    unfold Build.kindOfShape? at made
    split at made <;> cases made

end RestGraph
