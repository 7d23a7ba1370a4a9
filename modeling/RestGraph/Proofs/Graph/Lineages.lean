import RestGraph.Proofs.Graph.Drawn
import RestGraph.Proofs.Graph.Ids
import RestGraph.Proofs.Graph.Roots
import RestGraph.Proofs.Graph.Steps

/-!
# Lineages

The lineage of a node lists the nodes on its way up that are no properties, by ids that differ from
each other. So an id says whether it was met before, and a leaf that closes a cycle leads back to
the node above it that has the id.
-/

namespace RestGraph

variable {d : Document}

/-- The labels of kinds other than properties, with the tags that they stand for. -/
def Kind.labelTags : List (String × Tag) :=
  [("scalar", .scalar), ("enum", .enum), ("obj", .object), ("array", .array), ("ref", .reference),
    ("comp", .composed), ("union", .union), ("circular", .circular), ("get", .operation),
    ("post", .operation), ("put", .operation), ("patch", .operation), ("delete", .operation),
    ("param", .param), ("body", .body), ("res", .response)]

theorem Kind.mem_labelTags {k : Kind} (plain : k.isProperty = false) :
    (k.label, k.tag) ∈ labelTags := by
  cases k with
  | operation method => cases method <;> simp [label, tag, labelTags, Method.key]
  | property => cases plain
  | _ => simp [label, tag, labelTags]

/-- Apart from properties, the label of a kind says its tag. -/
theorem Kind.tag_of_label {k k' : Kind} (plain : k.isProperty = false)
    (plain' : k'.isProperty = false) (label : k.label = k'.label) : k.tag = k'.tag := by
  have unique : ∀ x ∈ labelTags, ∀ y ∈ labelTags, x.1 = y.1 → x.2 = y.2 := by decide
  exact unique _ (mem_labelTags plain) _ (mem_labelTags plain') label

/-- Whether no node may stand below nodes of the kind. -/
def Kind.isEnd : Kind → Bool
  | scalar .. | enum _ | circular _ => true
  | _ => false

theorem Kind.not_admits_of_isEnd {k c : Kind} (last : k.isEnd = true) : k.admits c = false := by
  cases k <;> first | rfl | cases last

theorem Kind.isEnd_of_tag {k k' : Kind} (tag : k.tag = k'.tag) : k.isEnd = k'.isEnd := by
  cases k <;> cases k' <;> first | rfl | cases tag

namespace Graph

variable {g h : Graph} {i p a : Nat} {s : Seed}

/-- The nodes on the way up that are no properties, with their ids, nearest first. -/
def heritage (g : Graph) (i : Nat) : List (String × Nat) :=
  ((i :: g.ancestors i).filter fun a => !(g.node a).isProperty).map fun a => (g.idAt a, a)

/-- The heritage of a node lists its ancestors that are no properties under their ids. -/
@[simp] theorem mem_heritage {id : String} : (id, a) ∈ g.heritage i ↔
    a ∈ i :: g.ancestors i ∧ (g.node a).isProperty = false ∧ g.idAt a = id := by
  simp only [heritage, List.mem_map, List.mem_filter, Prod.mk.injEq, Bool.not_eq_true']
  constructor
  · rintro ⟨b, ⟨mem, plain⟩, id, rfl⟩
    exact ⟨mem, plain, id⟩
  · rintro ⟨mem, plain, id⟩
    exact ⟨a, ⟨mem, plain⟩, id, rfl⟩

/-- The node is no property that could still turn out to close a cycle. -/
def Steady (g : Graph) (i : Nat) : Prop :=
  (g.node i).isProperty = true → (g.node i).kind.isArray = true

structure Lineal (g : Graph) : Prop where
  exact : ∀ {i}, i < g.size → (g.node i).lineage = g.heritage i
  apart : ∀ {i}, i < g.size → ((g.heritage i).map Prod.fst).Nodup
  closed : ∀ {i t}, (g.node i).kind = .circular t →
    t ∈ g.ancestors i ∧ g.Steady t ∧ g.idAt t = (g.node i).discriminant

/-- Steps leave the roots alone. -/
theorem Rooted.steps (rooted : g.Rooted) (steps : Steps d g h) : h.Rooted := by
  have step := steps.extends
  exact rooted.extend step fun lt parent => steps.root lt parent

namespace Lineal

theorem lineageHit?_eq_some (lineal : g.Lineal) (inside : i < g.size) {id : String} :
    g.lineageHit? i id = some a ↔
      a ∈ i :: g.ancestors i ∧ (g.node a).isProperty = false ∧ g.idAt a = id := by
  rw [lineageHit?, lineal.exact inside, ← mem_heritage]
  exact ⟨mem_of_lookup, lookup_of_mem (lineal.apart inside)⟩

/-- On a way no two nodes that are no properties have the same id. -/
theorem eq_of_id (lineal : g.Lineal) {b : Nat} (inside : i < g.size)
    (ha : a ∈ i :: g.ancestors i) (hb : b ∈ i :: g.ancestors i)
    (plain : (g.node a).isProperty = false) (plain' : (g.node b).isProperty = false)
    (same : g.idAt a = g.idAt b) : a = b := by
  have here := (lineal.lineageHit?_eq_some inside).mpr ⟨ha, plain, same⟩
  have there := (lineal.lineageHit?_eq_some inside).mpr ⟨hb, plain', rfl⟩
  rw [here, Option.some.injEq] at there
  exact there

end Lineal

/-- Nodes keep their ids while none of the properties turns. -/
theorem Extends.heritage (step : g.Extends h)
    (ids : ∀ a < g.size, (g.node a).isProperty = false → h.idAt a = g.idAt a) (lt : i < g.size) :
    h.heritage i = g.heritage i := by
  have inside : ∀ a ∈ i :: g.ancestors i, a < g.size := fun a mem => by
    rcases List.mem_cons.mp mem with rfl | above
    · exact lt
    · exact (lt_of_mem_ancestors above).trans lt
  have same : ((i :: g.ancestors i).filter fun a => !(h.node a).isProperty) =
      (i :: g.ancestors i).filter fun a => !(g.node a).isProperty :=
    List.filter_congr fun a mem => by
      rw [Node.isProperty, Node.isProperty, (step.keeps (inside a mem)).kind.isProperty]
  rw [Graph.heritage, Graph.heritage, step.ancestors lt, same]
  refine List.map_congr_left fun a mem => ?_
  obtain ⟨mem, plain⟩ := List.mem_filter.mp mem
  rw [ids a (inside a mem) (Bool.not_eq_true' _ ▸ plain)]

theorem Extends.idAt (step : g.Extends h) (lt : i < g.size)
    (plain : (g.node i).isProperty = false) : h.idAt i = g.idAt i := by
  have keeps := step.keeps lt
  rw [Graph.idAt, Graph.idAt, Node.id, Node.id, keeps.discriminant,
    keeps.kind.eq_of_not_isProperty plain]

theorem Extends.idAt_of_steady (step : g.Extends h) (lt : i < g.size) (steady : g.Steady i) :
    h.idAt i = g.idAt i := by
  have keeps := step.keeps lt
  rcases keeps.kind with same | ⟨shape, _, kind, wraps, _⟩
  · rw [Graph.idAt, Graph.idAt, Node.id, Node.id, keeps.discriminant, same]
  · have array := steady (by rw [Node.isProperty, kind]; rfl)
    rw [kind] at array
    cases shape <;> first | exact Bool.noConfusion wraps | exact Bool.noConfusion array

theorem Extends.steady (step : g.Extends h) (lt : i < g.size) (steady : g.Steady i) :
    h.Steady i := by
  have keeps := step.keeps lt
  intro prop
  rw [Node.isProperty, keeps.kind.isProperty] at prop
  rw [keeps.kind.isArray]
  exact steady prop

/-- Only a node that may have children stands on a way up. -/
theorem Forest.not_isEnd_of_above (forest : g.Forest) {k : Kind}
    (admits : (g.node p).kind.admits k = true) (above : a ∈ p :: g.ancestors p) :
    (g.node a).kind.isEnd = false := by
  refine Bool.eq_false_iff.mpr fun last => ?_
  rcases List.mem_cons.mp above with rfl | above
  · rw [Kind.not_admits_of_isEnd last] at admits
    cases admits
  · obtain ⟨c, child, -⟩ := forest.exists_child_of_mem_ancestors above
    have admits := forest.admits child
    rw [Kind.not_admits_of_isEnd last] at admits
    cases admits

/-- Operations stand at the top. -/
theorem Forest.ancestors_of_operation (forest : g.Forest) (tag : (g.node p).kind.tag = .operation) :
    g.ancestors p = [] := by
  refine ancestors_of_root ?_
  cases parent : (g.node p).parent with
  | none => rfl
  | some q => exact absurd tag (Kind.not_operation_of_admits (forest.admits (forest.child parent)))

/-- The id of a node that is attached is not met on the way up. -/
theorem Sprouts.id_notMem (sprouts : Sprouts d g p s) (forest : g.Forest) (lineal : g.Lineal)
    (inside : p < g.size) (admits : (g.node p).kind.admits s.kind = true)
    (plain : s.kind.isProperty = false) : s.id ∉ (g.heritage p).map Prod.fst := by
  intro mem
  obtain ⟨⟨id, a⟩, mem, rfl⟩ := List.mem_map.mp mem
  obtain ⟨above, plainAbove, same⟩ := mem_heritage.mp mem
  have tag : (g.node a).kind.tag = s.kind.tag :=
    Kind.tag_of_label plainAbove plain (Kind.idOf_inj plainAbove plain same).1
  have going : s.kind.isEnd = false :=
    (Kind.isEnd_of_tag tag).symm.trans (forest.not_isEnd_of_above admits above)
  cases sprouts with
  | part operation =>
    rw [forest.ancestors_of_operation operation, List.mem_singleton] at above
    subst above
    cases kind : (g.node a).kind <;> rw [kind] at operation tag admits <;> cases operation
    rw [Kind.admits, ← tag] at admits
    cases admits
  | @schema f s₀ holds made =>
    unfold checked at mem going
    split at going
    · cases going
    · next miss =>
      rw [miss] at mem
      rw [(lineal.lineageHit?_eq_some inside).mpr (mem_heritage.mp mem)] at miss
      cases miss
  | prop => cases plain
  | closing owner bare =>
    rcases bare with circular | ⟨_, kind⟩ | ⟨_, _, kind⟩
    · cases kind : s.kind <;> rw [kind] at circular plain going <;>
        first | exact Bool.noConfusion circular | exact Bool.noConfusion plain |
          exact Bool.noConfusion going
    · rw [kind] at going
      cases going
    · rw [kind] at plain
      cases plain

/-- The way up from a new node goes by its parent. -/
theorem ancestors_attach (inside : p < g.size) :
    (g.attach p s).ancestors g.size = p :: g.ancestors p := by
  have step : g.Extends (g.attach p s) := .attach
  rw [ancestors_of_parent (p := p) (by rw [parent_attach, if_pos rfl]) inside,
    step.ancestors inside]

/-- The nodes there were keep their heritage when one is attached. -/
theorem heritage_attach_of_lt (lt : i < g.size) : (g.attach p s).heritage i = g.heritage i :=
  Extends.attach.heritage (fun _ old plain => Extends.attach.idAt old plain) lt

/-- A new node has the heritage of its parent, and stands before it itself unless it is a
property. -/
theorem heritage_attach (inside : p < g.size) : (g.attach p s).heritage g.size =
    if s.kind.isProperty then g.heritage p else (s.id, g.size) :: g.heritage p := by
  have step : g.Extends (g.attach p s) := .attach
  have tail := heritage_attach_of_lt (p := p) (s := s) inside
  rw [Graph.heritage, step.ancestors inside] at tail
  have new : (g.attach p s).node g.size = g.sprout (some p) s := node_attach_size inside
  have prop : ((g.attach p s).node g.size).isProperty = s.kind.isProperty := by
    rw [new]
    rfl
  rw [Graph.heritage, ancestors_attach inside, List.filter_cons, prop]
  cases s.kind.isProperty with
  | true => exact tail
  | false =>
    simp only [Bool.not_false, if_true, List.map_cons, tail]
    rw [Graph.idAt, new]
    rfl

namespace Lineal

/-- The lineage of a new node is its heritage. -/
theorem exact_attach (exact_ : (g.node p).lineage = g.heritage p) (inside : p < g.size) :
    ((g.attach p s).node g.size).lineage = (g.attach p s).heritage g.size := by
  rw [heritage_attach inside, node_attach_size inside, sprout]
  dsimp only
  rw [exact_]

/-- A leaf that closes a cycle leads back to where its id is taken, the new one as well. -/
theorem closed_attach {j t : Nat} (lineal : g.Lineal) (inside : p < g.size)
    (guarded : g.Guarded p s)
    (kind : ((g.attach p s).node j).kind = .circular t) : t ∈ (g.attach p s).ancestors j ∧
      (g.attach p s).Steady t ∧ (g.attach p s).idAt t = ((g.attach p s).node j).discriminant := by
  have step : g.Extends (g.attach p s) := .attach
  rw [kind_attach] at kind
  split at kind
  · next new =>
    have target : t ∈ p :: g.ancestors p ∧ g.Steady t ∧ g.idAt t = s.discriminant := by
      rcases guarded.closes kind with hit | ⟨mem, array, id⟩
      · obtain ⟨mem, plain, id⟩ := (lineal.lineageHit?_eq_some inside).mp hit
        exact ⟨mem, fun prop => absurd (plain.symm.trans prop) Bool.noConfusion, id⟩
      · exact ⟨mem, fun _ => array, id⟩
    obtain ⟨mem, steady, id⟩ := target
    have lt : t < g.size := by
      rcases List.mem_cons.mp mem with rfl | above
      · exact inside
      · exact (lt_of_mem_ancestors above).trans inside
    rw [new, ancestors_attach inside, step.idAt_of_steady lt steady, id, node_attach_size inside]
    exact ⟨mem, step.steady lt steady, rfl⟩
  · have old : j < g.size := lt_size_of_not_array (by rw [kind]; rfl)
    obtain ⟨above, steady, id⟩ := lineal.closed kind
    have lt := (lt_of_mem_ancestors above).trans old
    rw [step.ancestors old, step.idAt_of_steady lt steady, (step.keeps old).discriminant]
    exact ⟨above, step.steady lt steady, id⟩

/-- A sprout that was checked keeps the lineages exact and the cycles closed. -/
theorem attach (lineal : g.Lineal) (forest : g.Forest) (inside : p < g.size)
    (admits : (g.node p).kind.admits s.kind = true) (sprouts : Sprouts d g p s)
    (guarded : g.Guarded p s) : (g.attach p s).Lineal := by
  have isNew : ∀ {j}, j < (g.attach p s).size → j < g.size ∨ j = g.size := fun lt => by
    rw [size_attach] at lt
    omega
  constructor
  case exact =>
    intro j lt
    rcases isNew lt with old | rfl
    · rw [heritage_attach_of_lt old, (Extends.attach.keeps old).lineage, lineal.exact old]
    · exact exact_attach (lineal.exact inside) inside
  case apart =>
    intro j lt
    rcases isNew lt with old | rfl
    · rw [heritage_attach_of_lt old]
      exact lineal.apart old
    · rw [heritage_attach inside]
      split
      · exact lineal.apart inside
      · next plain =>
        rw [List.map_cons, List.nodup_cons]
        exact ⟨sprouts.id_notMem forest lineal inside admits (Bool.eq_false_iff.mpr plain),
          lineal.apart inside⟩
  case closed => exact lineal.closed_attach inside guarded

/-- A move without a new node changes no id but those of properties that turn. -/
theorem change (lineal : g.Lineal) (step : g.Extends h) (size : h.size = g.size) : h.Lineal := by
  have kinds : ∀ {j t}, (h.node j).kind = .circular t → (g.node j).kind = .circular t :=
    fun {j t} kind => by
      have lt : j < g.size := size ▸ lt_size_of_not_array (by rw [kind]; rfl)
      rcases (step.keeps lt).kind with same | ⟨_, _, _, _, turned⟩
      · rw [← same, kind]
      · rw [kind] at turned
        cases turned
  have heritage : ∀ {j}, j < g.size → h.heritage j = g.heritage j := fun lt =>
    step.heritage (fun a old plain => step.idAt old plain) lt
  constructor
  · intro j lt
    rw [size] at lt
    rw [heritage lt, (step.keeps lt).lineage, lineal.exact lt]
  · intro j lt
    rw [size] at lt
    rw [heritage lt]
    exact lineal.apart lt
  · intro j t kind
    have kind := kinds kind
    obtain ⟨above, steady, id⟩ := lineal.closed kind
    have old := lt_size_of_not_array (g := g) (i := j) (by rw [kind]; rfl)
    have lt := (lt_of_mem_ancestors above).trans old
    rw [step.ancestors old, step.idAt_of_steady lt steady, (step.keeps old).discriminant]
    exact ⟨above, step.steady lt steady, id⟩

theorem step (lineal : g.Lineal) (forest : g.Forest) (step : Step d g h) : h.Lineal := by
  cases step with
  | attach inside admits _ _ sprouts guarded =>
    exact lineal.attach forest inside admits sprouts guarded
  | change move size => exact lineal.change move.extends size
  | fill => exact lineal.change (.modify { Node.Keeps.refl _ with }) size_modify

theorem steps (lineal : g.Lineal) (forest : g.Forest) (steps : Steps d g h) : h.Lineal := by
  induction steps with
  | refl => exact lineal
  | tail before step ih => exact ih.step (forest.steps before) step

end Lineal

/-- At first every node is an operation without a parent, and stands alone in its lineage. -/
theorem flat_addOperations
    (flat : ∀ i < g.size, (g.node i).parent = none ∧ (g.node i).lineage = [(g.idAt i, i)])
    (taken : List String) (entries : List OperationEntry) :
    ∀ i < (g.addOperations taken entries).size,
      ((g.addOperations taken entries).node i).parent = none ∧
        ((g.addOperations taken entries).node i).lineage =
          [((g.addOperations taken entries).idAt i, i)] := by
  induction entries generalizing g taken with
  | nil => exact flat
  | cons e rest ih =>
    refine ih (fun i lt => ?_) _
    rw [size_addRoot] at lt
    rw [Graph.idAt, node_addRoot]
    split
    · next new =>
      rw [new]
      exact ⟨rfl, rfl⟩
    · exact flat i (by omega)

/-- **The graph of a document starts with exact lineages.** -/
theorem ofDocument_lineal (d : Document) : (ofDocument d).Lineal := by
  have flat : ∀ i < (ofDocument d).size, ((ofDocument d).node i).parent = none ∧
      ((ofDocument d).node i).lineage = [((ofDocument d).idAt i, i)] :=
    flat_addOperations (g := empty) (fun _ lt => absurd lt (Nat.not_lt_zero _)) [] d.operations
  have operation := unvisited_ofDocument d
  have heritage : ∀ i < (ofDocument d).size,
      (ofDocument d).heritage i = [((ofDocument d).idAt i, i)] := fun i lt => by
    have plain : ((ofDocument d).node i).isProperty = false := by
      rw [Node.isProperty, Kind.isProperty, (operation i lt).1]
      rfl
    rw [Graph.heritage, ancestors_of_root (flat i lt).1, List.filter_cons, plain]
    rfl
  refine ⟨fun {i} lt => ?_, fun {i} lt => ?_, fun {i t} kind => ?_⟩
  · rw [heritage i lt]
    exact (flat i lt).2
  · rw [heritage i lt]
    exact List.nodup_singleton _
  · have tag := (operation i (lt_size_of_not_array (by rw [kind]; rfl))).1
    rw [kind] at tag
    cases tag

end Graph

end RestGraph
