import RestGraph.Proofs.Graph.Sound
import RestGraph.Proofs.Run.Ends

/-!
# Building

What the steps that make nodes do: they move the graph, work on no node but the parent, and add one
child to it, the last. An array or a property is made together with what it wraps.
-/

namespace RestGraph

/-- A stretch of a run: the graph moves and grows, the surroundings stay. -/
structure Run.Steps (d : Document) (busy : Set Nat) (r s : Run) : Prop where
  moves : r.graph.Moves d s.graph
  grows : r.graph.Grows busy s.graph
  unmerged : Graph.NoNew Node.consolidated r.graph s.graph
  stack : s.stack = r.stack
  filter : s.filter = r.filter
  extent : s.extent = r.extent

namespace Run.Steps

variable {d : Document} {busy busy' : Set Nat} {r s t : Run}

theorem refl (d : Document) (busy : Set Nat) (r : Run) : Steps d busy r r :=
  ⟨.refl, .refl _ _, .refl _ _, rfl, rfl, rfl⟩

/-- Nothing but registries changed. -/
theorem of_same (graph : s.graph = r.graph) (stack : s.stack = r.stack)
    (filter : s.filter = r.filter) (extent : s.extent = r.extent) : Steps d busy r s where
  moves := graph ▸ .refl
  grows := graph ▸ .refl _ _
  unmerged := graph ▸ .refl _ _
  stack := stack
  filter := filter
  extent := extent

theorem trans (first : Steps d busy r s) (second : Steps d busy' s t)
    (sub : ∀ i < r.graph.size, i ∈ busy' → i ∈ busy) : Steps d busy r t where
  moves := first.moves.trans second.moves
  grows := first.grows.trans second.grows sub
  unmerged := first.unmerged.trans second.unmerged
  stack := second.stack.trans first.stack
  filter := second.filter.trans first.filter
  extent := second.extent.trans first.extent

theorem forest (step : Steps d busy r s) (forest : r.graph.Forest) : s.graph.Forest :=
  forest.moves step.moves

theorem sound (step : Steps d busy r s) (sound : r.graph.Sound) : s.graph.Sound :=
  sound.moves step.moves

end Run.Steps

/-- A stretch that only makes nodes, below a node that was there. None of them is visited, and no
field is entered. -/
structure Run.Builds (d : Document) (p : Nat) (r s : Run) : Prop extends Run.Steps d {p} r s where
  unvisited : Graph.NoNew Node.visited r.graph s.graph
  fields : ∀ i, (s.graph.node i).props = (r.graph.node i).props

namespace Run.Builds

variable {d : Document} {p q : Nat} {r s t : Run}

theorem refl (d : Document) (p : Nat) (r : Run) : Builds d p r r :=
  ⟨.refl _ _ _, .refl _ _, fun _ => rfl⟩

theorem of_same (graph : s.graph = r.graph) (stack : s.stack = r.stack)
    (filter : s.filter = r.filter) (extent : s.extent = r.extent) : Builds d p r s :=
  ⟨.of_same graph stack filter extent, graph ▸ .refl _ _, fun _ => by rw [graph]⟩

theorem trans (first : Builds d p r s) (second : Builds d q s t)
    (sub : q < r.graph.size → q = p) : Builds d p r t where
  toSteps := first.toSteps.trans second.toSteps fun _ lt e => by
    cases Set.mem_singleton_iff.mp e
    exact sub lt
  unvisited := first.unvisited.trans second.unvisited
  fields i := (second.fields i).trans (first.fields i)

end Run.Builds

/-- Whether the fragment of the node gives it no children. -/
def Node.isHollow (n : Node) : Bool :=
  match n.kind with
  | .scalar .. | .enum _ | .circular _ | .property (.scalar ..) _ => true
  | .object _ => (sortedProperties n.schema).isEmpty
  | .composed => (branchesOf n.schema ["allOf"]).isEmpty
  | .union => (branchesOf n.schema ["oneOf", "anyOf"]).isEmpty
  | _ => false

/-- A node that is kept stays hollow or not. -/
theorem Node.Keeps.isHollow {n n' : Node} (keeps : n.Keeps n') : n'.isHollow = n.isHollow := by
  unfold Node.isHollow
  rw [keeps.schema]
  rcases keeps.kind with kind | ⟨shape, required, kind, wraps, kind'⟩
  · rw [kind]
  · rw [kind, kind']
    cases shape <;> first | rfl | cases wraps

namespace Graph

variable {busy : Set Nat} {g h : Graph} {p o : Nat} {seed : Seed}

/-- When the time for it has come, the node has children, if its fragment gives it any. -/
def FedAt (g : Graph) (o : Nat) : Prop :=
  o < g.size → (g.node o).kind.isEager = true ∨ (g.node o).visited = true →
    (g.node o).isHollow = false → (g.node o).children ≠ []

/-- A node with children is fed. -/
theorem FedAt.of_children (some : (g.node o).children ≠ []) : g.FedAt o := fun _ _ _ => some

/-- A node that is not visited stays fed. -/
theorem FedAt.grow (fed : g.FedAt o) (step : g.Extends h) (old : o < g.size)
    (visited : (h.node o).visited = true → (g.node o).visited = true) : h.FedAt o := by
  intro _ due solid
  have keeps := step.keeps old
  rw [keeps.isHollow] at solid
  refine fun none => fed old ?_ solid (List.prefix_nil.mp (none ▸ keeps.children))
  rcases due with eager | done
  · exact .inl (keeps.kind.isEager.symm.trans eager)
  · exact .inr (visited done)

/-- A node that awaits its visit, and a scalar property, are fed as they are. -/
theorem fedAt_attach (inside : p < g.size)
    (late : seed.kind.isEager = false ∨ ∃ type placeholder required,
      seed.kind = .property (.scalar type placeholder) required) :
    (g.attach p seed).FedAt g.size := by
  intro _ due solid
  rw [node_attach_size inside] at due solid
  rcases late with late | ⟨type, placeholder, required, kind⟩
  · rcases due with eager | visited
    · rw [show (g.sprout (some p) seed).kind = seed.kind from rfl, late] at eager
      cases eager
    · cases visited
  · rw [Node.isHollow, show (g.sprout (some p) seed).kind = seed.kind from rfl, kind] at solid
    cases solid

end Graph

/-- Nodes that were made are fed. -/
def Run.Feeds (r s : Run) : Prop := ∀ o, r.graph.size ≤ o → s.graph.FedAt o

namespace Run.Feeds

variable {d : Document} {p : Nat} {r s t : Run}

theorem refl (r : Run) : r.Feeds r := fun _ le lt => absurd lt (Nat.not_lt.mpr le)

theorem of_same (graph : s.graph = r.graph) : r.Feeds s :=
  fun o le => graph ▸ refl r o le

theorem before (feeds : r.Feeds s) (graph : t.graph.size = r.graph.size) : t.Feeds s :=
  fun o le => feeds o (graph ▸ le)

/-- The node that was attached needs no child of its own. -/
theorem attach {seed : Seed} (inside : p < r.graph.size) (graph : s.graph = r.graph.attach p seed)
    (late : seed.kind.isEager = false ∨ ∃ type placeholder required,
      seed.kind = .property (.scalar type placeholder) required) : r.Feeds s := by
  intro o le lt
  rw [graph] at lt ⊢
  rw [Graph.size_attach] at lt
  obtain rfl := Nat.le_antisymm (Nat.lt_succ_iff.mp lt) le
  exact Graph.fedAt_attach inside late (by rw [Graph.size_attach]; exact lt)

/-- A node that is fed in the end, and all that comes after it. -/
theorem cons (size : s.graph.size = r.graph.size + 1) (fed : t.graph.FedAt r.graph.size)
    (later : s.Feeds t) : r.Feeds t := by
  intro o le
  rcases Nat.eq_or_lt_of_le le with rfl | lt
  · exact fed
  · exact later o (size ▸ lt)

/-- What feeds its nodes may be followed by building below one of them that feeds its own. -/
theorem trans (first : r.Feeds s) (builds : s.Builds d p t) (second : s.Feeds t) : r.Feeds t := by
  intro o le lt
  rcases lt_or_ge o s.graph.size with old | new
  · exact (first o le).grow builds.grows.toExtends old (fun done => (builds.unvisited lt done).2) lt
  · exact second o new lt

theorem modify {f : Node → Node} {i : Nat} (feeds : r.Feeds s)
    (keep : (s.graph.node i).Keeps (f (s.graph.node i)))
    (visited : ∀ n, (f n).visited = n.visited) : r.Feeds (s.onGraph fun g => g.modify i f) := by
  intro o le lt
  have old : o < s.graph.size := Graph.size_modify ▸ lt
  exact (feeds o le).grow (.modify keep) old
    (fun done => (Graph.part_modify Node.visited visited o).symm.trans done) lt

end Run.Feeds

namespace Graph

/-- The node may get another child. -/
structure Open (g : Graph) (p : Nat) : Prop where
  inside : p < g.size
  room : (g.node p).kind.isNarrow = true → (g.node p).children = []
  due : (g.node p).kind.isEager = false → (g.node p).visited = true

/-- Checking a seed leaves its schema. -/
@[simp]
theorem checked_schema {g : Graph} {p : Nat} {s : Seed} : (g.checked p s).schema = s.schema := by
  unfold checked
  split <;> rfl

/-- A seed for a schema is one when it is checked. -/
theorem checked_isSchema {g : Graph} {p : Nat} {s : Seed} (h : s.kind.isSchema = true) :
    (g.checked p s).kind.isSchema = true := by
  unfold checked
  split
  · rfl
  · exact h

end Graph

/-- A node was made: the last one, and the last child of its parent. -/
structure Made (d : Document) (p : Nat) (r : Run) (i : Nat) (r' : Run) : Prop where
  builds : r.Builds d p r'
  handle : i = r.graph.size
  child : (r'.graph.node p).children = (r.graph.node p).children ++ [i]

namespace Made

variable {d : Document} {r s t : Run} {p i : Nat}

/-- What a move attaches below a node is made there. -/
theorem attach {seed : Seed} (inside : p < r.graph.size)
    (move : r.graph.Move d (r.graph.attach p seed)) (graph : s.graph = r.graph.attach p seed)
    (stack : s.stack = r.stack) (filter : s.filter = r.filter) (extent : s.extent = r.extent) :
    Made d p r r.graph.size s where
  builds := by
    refine ⟨⟨?_, ?_, ?_, stack, filter, extent⟩, ?_, fun j => ?_⟩ <;> rw [graph]
    · exact .single move
    · exact .attach
    · exact .attach (fun _ _ => rfl) rfl
    · exact .attach (fun _ _ => rfl) rfl
    · exact Graph.props_attach j
  handle := rfl
  child := by simp [graph, inside]

theorem mem (made : Made d p r i s) : i ∈ (s.graph.node p).children := by
  rw [made.child]
  exact List.mem_append_right _ (List.mem_singleton_self _)

theorem before (made : Made d p s i t) (graph : s.graph = r.graph) (stack : s.stack = r.stack)
    (filter : s.filter = r.filter) (extent : s.extent = r.extent) : Made d p r i t where
  builds := (Run.Builds.of_same graph stack filter extent).trans made.builds fun _ => rfl
  handle := made.handle.trans (congrArg Graph.size graph)
  child := made.child.trans (by rw [graph])

/-- Work on the new node leaves its parent alone. -/
theorem andThen (made : Made d p r i s) (inside : p < r.graph.size) (builds : s.Builds d i t) :
    Made d p r i t where
  builds := made.builds.trans builds fun lt => by
    rw [made.handle] at lt
    exact absurd lt (Nat.lt_irrefl _)
  handle := made.handle
  child := by
    rw [builds.grows.children (inside.trans_le made.builds.grows.size_le), made.child]
    rw [Set.mem_singleton_iff, made.handle]
    exact Nat.ne_of_lt inside

/-- So does a change of the new node itself. -/
theorem andModify (made : Made d p r i s) (inside : p < r.graph.size) {f : Node → Node}
    (move : s.graph.Move d (s.graph.modify i f)) (visited : ∀ n, (f n).visited = n.visited)
    (consolidated : ∀ n, (f n).consolidated = n.consolidated)
    (props : ∀ n, (f n).props = n.props) : Made d p r i (s.onGraph fun g => g.modify i f) := by
  have old : ∀ {j}, j < r.graph.size → (s.graph.modify i f).node j = s.graph.node j := fun lt =>
    Graph.node_modify_of_ne (made.handle ▸ Nat.ne_of_lt lt)
  have steps := made.builds.toSteps
  have grows : r.graph.Grows {p} (s.graph.modify i f) := by
    refine ⟨⟨?_, steps.grows.roots, fun lt => ?_⟩, fun lt => ?_, fun lt free => ?_,
      fun lt free merged => ?_⟩
    · exact steps.grows.size_le.trans (Nat.le_of_eq Graph.size_modify.symm)
    · rw [old lt]
      exact steps.grows.keeps lt
    · rw [old lt, steps.grows.kind lt]
    · rw [old lt, steps.grows.children lt free]
    · rw [old lt, steps.grows.props lt free merged]
  refine ⟨⟨⟨steps.moves.tail move, grows, steps.unmerged.trans (.modify consolidated), steps.stack,
    steps.filter, steps.extent⟩, made.builds.unvisited.trans (.modify visited), fun j => ?_⟩,
    made.handle, ?_⟩
  · exact (Graph.part_modify Node.props props j).trans (made.builds.fields j)
  · change ((s.graph.modify i f).node p).children = _
    rw [old inside, made.child]

end Made

namespace Build

variable {d : Document} {r r' : Run} {p i : Nat}

/-- A checked seed is attached, and only warnings may be recorded with it. -/
theorem ends_attachChecked {s : Seed} (h : Ends (attachChecked p s) r i r') :
    i = r.graph.size ∧ r'.graph = r.graph.attach p (r.graph.checked p s) ∧
      r'.stack = r.stack ∧ r'.filter = r.filter ∧ r'.extent = r.extent := by
  unfold attachChecked at h
  simp only [Ends.bind_iff, ends_graph] at h
  obtain ⟨_, _, ⟨rfl, rfl⟩, h⟩ := h
  unfold Graph.checked
  cases hit : r.graph.lineageHit? p s.id with
  | some ancestor =>
    simp only [hit, Ends.bind_iff, ends_warn, ends_attach] at h
    obtain ⟨_, _, rfl, rfl, rfl⟩ := h
    exact ⟨rfl, rfl, rfl, rfl, rfl⟩
  | none =>
    simp only [hit] at h
    split at h
    · simp only [Ends.bind_iff, Ends.modify_iff, ends_attach] at h
      obtain ⟨_, _, rfl, rfl, rfl⟩ := h
      exact ⟨rfl, rfl, rfl, rfl, rfl⟩
    · simp only [ends_attach] at h
      obtain ⟨rfl, rfl⟩ := h
      exact ⟨rfl, rfl, rfl, rfl, rfl⟩

/-- The node that is attached is the checked seed. -/
theorem node_attachChecked {s : Seed} (h : Ends (attachChecked p s) r i r')
    (inside : p < r.graph.size) :
    r'.graph.node i = r.graph.sprout (some p) (r.graph.checked p s) := by
  obtain ⟨rfl, graph, -⟩ := ends_attachChecked h
  simp [graph, inside]

/-- A seed that sprouts is made below an open parent. -/
theorem attach_made {s : Seed} (h : Ends (attach p s) r i r') (room : r.graph.Open p)
    (admits : (r.graph.node p).kind.admits s.kind = true) (sprouts : r.graph.Sprouts d p s) :
    Made d p r i r' ∧ r'.graph.node i = r.graph.sprout (some p) s := by
  obtain ⟨rfl, rfl⟩ := ends_attach.mp h
  exact ⟨.attach room.inside (.attach room.inside admits room.room room.due sprouts)
    rfl rfl rfl rfl, Graph.node_attach_size room.inside⟩

theorem attach_feeds {s : Seed} (h : Ends (attach p s) r i r') (inside : p < r.graph.size)
    (late : s.kind.isEager = false ∨ ∃ type placeholder required,
      s.kind = .property (.scalar type placeholder) required) : r.Feeds r' := by
  obtain ⟨rfl, rfl⟩ := ends_attach.mp h
  exact .attach inside rfl late

/-- A placeholder is made below its array. -/
theorem attachPlaceholder_made (h : Ends (attachPlaceholder p) r i r')
    (array : (r.graph.node p).kind = .array) (room : r.graph.Open p) :
    Made d p r i r' ∧ r.Feeds r' := by
  unfold attachPlaceholder warnMissingItems at h
  simp only [Ends.bind_iff, ends_pathOf, ends_warn, ends_node] at h
  obtain ⟨_, _, ⟨_, _, ⟨rfl, rfl⟩, rfl⟩, _, _, ⟨rfl, rfl⟩, h⟩ := h
  have made : Made d p (r.warn _ _ _) i r' :=
    (attach_made h ⟨room.inside, room.room, room.due⟩ (array ▸ rfl)
      (.closing (.inl (array ▸ rfl)) (.inr (.inl ⟨_, rfl⟩)))).1
  exact ⟨made.before rfl rfl rfl rfl, (attach_feeds h room.inside (.inl rfl)).before rfl⟩

/-- An array that was just made gets its element. -/
def fillArray (element : Nat → Json → Build Nat) (i : Nat) (schema : Json) : Kind → Build Unit
  | .array =>
    match itemsOf? schema with
    | some items => discard (element i items)
    | none => discard (attachPlaceholder i)
  | _ => pure ()

theorem settle_builds {element : Nat → Json → Build Nat} {schema : Json} {u : Unit}
    (h : Ends (settle element p i schema) r u r') (forest : r.graph.Forest)
    (inside : i < r.graph.size) (same : (r.graph.node i).schema = schema)
    (isSchema : (r.graph.node i).kind.isSchema = true) (fresh : (r.graph.node i).visited = false)
    (childless : (r.graph.node i).children = [])
    (ih : ∀ {s s' c items}, Ends (element i items) s c s' → s.graph.Forest → s.graph.Open i →
      (s.graph.node i).kind = .array →
      s.graph.Holds d i (s.graph.node i).children.length items → Made d i s c s' ∧ s.Feeds s') :
    r.Builds d i r' ∧ r.Feeds r' ∧ r'.graph.FedAt i := by
  unfold settle at h
  simp only [Ends.bind_iff, ends_node] at h
  obtain ⟨_, _, ⟨rfl, rfl⟩, _, _, ⟨rfl, rfl⟩, h⟩ := h
  -- registering the node is no work on it
  have entered : ∃ s, r.graph = s.graph ∧ r.stack = s.stack ∧ r.filter = s.filter ∧
      r.extent = s.extent ∧ Ends (fillArray element i schema (r.graph.node i).kind) s u r' := by
    split at h
    · exact ⟨r, rfl, rfl, rfl, rfl, h⟩
    · simp only [Ends.bind_iff, Ends.modify_iff] at h
      obtain ⟨_, _, rfl, h⟩ := h
      exact ⟨r.register i _, rfl, rfl, rfl, rfl, h⟩
    · exact ⟨r, rfl, rfl, rfl, rfl, h⟩
  obtain ⟨s, graph, stack, filter, extent, h⟩ := entered
  have same' : r.Builds d i s := .of_same graph.symm stack.symm filter.symm extent.symm
  rw [graph] at forest inside same childless isSchema fresh h
  unfold fillArray at h
  have entered : ∀ {c t}, Made d i s c t ∧ s.Feeds t →
      r.Builds d i t ∧ r.Feeds t ∧ t.graph.FedAt i := fun both =>
    ⟨same'.trans both.1.builds fun _ => rfl, both.2.before (congrArg Graph.size graph),
      .of_children (List.ne_nil_of_mem both.1.mem)⟩
  split at h
  · next array =>
    have due : (s.graph.node i).kind.isEager = false → (s.graph.node i).visited = true := by
      rw [array]
      exact fun eager => absurd eager Bool.noConfusion
    split at h
    · next items here =>
      obtain ⟨c, h⟩ := Ends.discard_iff.mp h
      refine entered (ih h forest ⟨inside, fun _ => childless, due⟩ array (.own ?_))
      rw [Document.fragmentAt?, array, same]
      exact here
    · next none =>
      obtain ⟨c, h⟩ := Ends.discard_iff.mp h
      exact entered (attachPlaceholder_made h array ⟨inside, fun _ => childless, due⟩)
  · next other =>
    obtain ⟨-, rfl⟩ := Ends.pure_iff.mp h
    refine ⟨same', .of_same graph.symm, fun _ due => ?_⟩
    rcases due with eager | visited
    · cases kind : (s.graph.node i).kind <;> rw [kind] at eager isSchema <;>
        first | exact absurd kind other | exact Bool.noConfusion eager |
          exact Bool.noConfusion isSchema
    · rw [fresh] at visited
      cases visited

/-- A fragment becomes the last child of its parent. -/
theorem fromSchemaWithin_made {depth : Nat} {schema : Json}
    (h : Ends (fromSchemaWithin depth p schema) r i r') (forest : r.graph.Forest)
    (room : r.graph.Open p)
    (takes : ∀ c : Kind, c.isSchema = true → (r.graph.node p).kind.admits c = true)
    (holds : r.graph.Holds d p (r.graph.node p).children.length schema) :
    Made d p r i r' ∧ r.Feeds r' := by
  induction depth generalizing p schema r i r' with
  | zero => exact absurd h (by rw [fromSchemaWithin, Ends.throw_iff]; exact id)
  | succ depth ih =>
    have attached : ∀ {s : Seed} {i r'}, (r.graph.node p).seedBelow? schema = some s →
        Ends (attachChecked p s) r i r' → Made d p r i r' := fun {s i r'} made h => by
      obtain ⟨rfl, graph, stack, filter, extent⟩ := ends_attachChecked h
      exact .attach room.inside (.attach room.inside
        (takes _ (Graph.checked_isSchema (Node.seedBelow?_isSchema made))) room.room room.due
        (.schema holds made)) graph stack filter extent
    rw [fromSchemaWithin] at h
    simp only [Ends.bind_iff, ends_node] at h
    obtain ⟨_, _, ⟨rfl, rfl⟩, h⟩ := h
    split at h
    · next pointer shape =>
      refine ⟨attached (by rw [Node.seedBelow?, shape]) h, ?_⟩
      obtain ⟨rfl, graph, -⟩ := ends_attachChecked h
      refine .attach room.inside graph (.inl ?_)
      unfold Graph.checked
      split <;> rfl
    · next shape notRef =>
      split at h
      · exact absurd h
          (by simp only [Ends.bind_iff, Ends.throw_iff, and_false, exists_false, not_false_eq_true])
      · next kind made =>
        simp only [Ends.bind_iff, Ends.pure_iff] at h
        obtain ⟨i, s, h, _, t, settled, rfl, rfl⟩ := h
        have seed := Node.seedBelow?_of_kind (n := r.graph.node p) notRef made
        have first := attached seed h
        have new := node_attachChecked h room.inside
        have settles : s.Builds d i t ∧ s.Feeds t ∧ t.graph.FedAt i := by
          refine settle_builds settled (first.builds.forest forest) ?_ ?_ ?_ ?_ ?_ ?_
          · exact ((first.builds.forest forest).below first.mem).2
          · rw [new]
            exact Graph.checked_schema
          · rw [new]
            exact Graph.checked_isSchema (Node.seedBelow?_isSchema seed)
          · rw [new]
            rfl
          · rw [new]
            rfl
          · intro s s' c items h forest room array holds
            refine ih h forest room (fun _ schema => ?_) holds
            rw [array]
            exact schema
        obtain ⟨builds, feeds, fed⟩ := settles
        have size : s.graph.size = r.graph.size + 1 := by
          simp [(ends_attachChecked h).2.1]
        exact ⟨first.andThen room.inside builds, .cons size (first.handle ▸ fed) feeds⟩

/-- **A schema is made below its parent, with all that it needs.** -/
theorem fromSchema_made {schema : Json} (h : Ends (fromSchema p schema) r i r')
    (forest : r.graph.Forest) (room : r.graph.Open p)
    (takes : ∀ c : Kind, c.isSchema = true → (r.graph.node p).kind.admits c = true)
    (holds : r.graph.Holds d p (r.graph.node p).children.length schema) :
    Made d p r i r' ∧ r.Feeds r' :=
  fromSchemaWithin_made h forest room takes holds

/-! ## Properties -/

/-- No shape makes a property circular from the start. -/
theorem propShapeOf_ne_circular (shape : Shape) : propShapeOf shape ≠ .circular := by
  cases shape with
  | object synthetic => cases synthetic <;> exact PropShape.noConfusion
  | _ => exact PropShape.noConfusion

/-- The schema that decides is read off the document. -/
theorem ends_decisive {schema fragment : Json} (h : Ends (decisive d p schema) r fragment r') :
    d.Decides schema fragment ∧ r = r' := by
  unfold decisive at h
  unfold Document.Decides
  cases ref : schema.ref? with
  | none =>
    simp only [ref, Ends.pure_iff] at h
    exact ⟨h.1.symm, h.2⟩
  | some pointer =>
    simp only [ref, Ends.bind_iff, Ends.get_iff, Ends.liftExcept_iff] at h
    obtain ⟨_, _, ⟨rfl, rfl⟩, target, _, ⟨found, rfl⟩, followed, rfl⟩ := h
    exact ⟨⟨_, _, target, found, followed⟩, rfl⟩

/-- The element that closes a cycle is made below its array. -/
theorem circularElement_made {name : String} {schema : Json} {ancestor : Nat}
    (h : Ends (circularElement p name schema ancestor) r i r') (forest : r.graph.Forest)
    (room : r.graph.Open p) (array : (r.graph.node p).kind.isArray = true)
    (takes : ∀ c : Kind, c.isProperty = true → (r.graph.node p).kind.admits c = true) :
    Made d p r i r' ∧ (r'.graph.node i).name = name ∧ r.Feeds r' := by
  unfold circularElement at h
  simp only [Ends.bind_iff, ends_graph, ends_warn, Ends.discard_iff, Ends.pure_iff] at h
  obtain ⟨_, _, ⟨rfl, rfl⟩, _, _, rfl, prop, s, h, _, t, ⟨leaf, h'⟩, rfl, rfl⟩ := h
  obtain ⟨made, new⟩ := attach_made (d := d) h ⟨room.inside, room.room, room.due⟩ (takes _ rfl)
    (.closing (.inl array) (.inl rfl))
  have bounds := ((made.builds.forest forest).below made.mem).2
  obtain ⟨made', -⟩ := attach_made (d := d) h'
    ⟨bounds, by rw [new]; exact fun _ =>
      rfl, by rw [new]; exact fun eager => absurd eager Bool.noConfusion⟩
    (by rw [new]; rfl) (.closing (.inr (by rw [new]; rfl)) (.inl rfl))
  refine ⟨(made.before (r := r) rfl rfl rfl rfl).andThen room.inside made'.builds, ?_, ?_⟩
  · rw [(made'.builds.grows.keeps bounds).name, new]
    rfl
  · have fed := Graph.FedAt.of_children (List.ne_nil_of_mem made'.mem)
    rw [made.handle] at fed
    refine .cons ?_ fed (attach_feeds h' bounds (.inl rfl))
    rw [(ends_attach.mp h).2.symm]
    exact Graph.size_attach

theorem placeholderElement_builds {name : String} {u : Unit} {required : Bool}
    (h : Ends (placeholderElement p name) r u r') (room : r.graph.Open p)
    (kind : (r.graph.node p).kind = .property .array required) :
    r.Builds d p r' ∧ r.Feeds r' ∧ r'.graph.FedAt p := by
  unfold placeholderElement warnMissingItems at h
  simp only [Ends.bind_iff, ends_pathOf, ends_warn, ends_node, Ends.discard_iff] at h
  obtain ⟨_, _, ⟨_, _, ⟨rfl, rfl⟩, rfl⟩, _, _, ⟨rfl, rfl⟩, _, h⟩ := h
  have made := (attach_made (d := d) h ⟨room.inside, room.room, room.due⟩ (kind ▸ rfl)
    (.closing (.inl (kind ▸ rfl)) (.inr (.inr ⟨_, _, rfl⟩)))).1
  refine ⟨(made.before (r := r) rfl rfl rfl rfl).builds, ?_,
    .of_children (List.ne_nil_of_mem made.mem)⟩
  exact (attach_feeds h room.inside (.inr ⟨_, _, _, rfl⟩)).before rfl

/-- The property gets its child, and then it may turn. -/
theorem wrapSchema_cases {schema : Json} {shape : PropShape} {required : Bool} {u : Unit}
    (h : Ends (wrapSchema p schema required) r u r') (forest : r.graph.Forest)
    (room : r.graph.Open p) (kind : (r.graph.node p).kind = .property shape required)
    (wraps : shape.isWrapper = true)
    (takes : ∀ c : Kind, c.isSchema = true → (r.graph.node p).kind.admits c = true)
    (holds : r.graph.Holds d p (r.graph.node p).children.length schema) : ∃ s, r.Builds d p s ∧
      r.Feeds s ∧ s.graph.FedAt p ∧
      (s = r' ∨ s.graph.Move d (s.graph.modify p fun n =>
        { n with kind := .property .circular required }) ∧
        (s.onGraph fun g => g.modify p fun n =>
          { n with kind := .property .circular required }) = r') := by
  unfold wrapSchema at h
  simp only [Ends.bind_iff, ends_node] at h
  obtain ⟨child, s, h, _, _, ⟨rfl, rfl⟩, h'⟩ := h
  obtain ⟨made, feeds⟩ := fromSchema_made h forest room takes holds
  refine ⟨s, made.builds, feeds, .of_children (List.ne_nil_of_mem made.mem), ?_⟩
  split at h'
  · next ancestor circular =>
    obtain rfl := ends_modifyNode.mp h'
    refine .inr ⟨.turn ((made.builds.grows.kind room.inside).trans kind) wraps ?_, rfl⟩
    intro c hc
    rw [made.child, room.room (kind ▸ rfl), List.nil_append] at hc
    rw [List.mem_singleton.mp hc, circular]
    rfl
  · exact .inl (Ends.pure_iff.mp h').2

/-- A property has been attached to its owner, and has nothing below it yet. -/
structure Budded (d : Document) (p : Nat) (name : String) (schema fragment : Json) (required : Bool)
    (r : Run) (prop : Nat) (t : Run) : Prop where
  made : Made d p r prop t
  forest : t.graph.Forest
  opens : t.graph.Open prop
  size : t.graph.size = r.graph.size + 1
  kind : (t.graph.node prop).kind = .property (propShapeOf (Shape.ofSchema fragment)) required
  named : (t.graph.node prop).name = name
  made_of : (t.graph.node prop).schema = fragment
  holds : t.graph.Holds d prop (t.graph.node prop).children.length schema

/-- A property that is attached has budded. -/
theorem attach_budded {name : String} {schema fragment : Json} {required : Bool} {prop : Nat}
    (h : Ends (attach p ⟨.property (propShapeOf (Shape.ofSchema fragment)) required, name, name,
      if (r.graph.node p).isProperty then (r.graph.node p).scope ++ "[]"
      else (r.graph.node p).scope ++ "." ++ name, fragment⟩) r prop t) (forest : r.graph.Forest)
    (room : r.graph.Open p)
    (takes : ∀ c : Kind, c.isProperty = true → (r.graph.node p).kind.admits c = true)
    (here : (r.graph.node p).propAt? (r.graph.node p).children.length = some (name, schema))
    (decides : d.Decides schema fragment) : Budded d p name schema fragment required r prop t := by
  obtain ⟨made, new⟩ := attach_made (d := d) h room (takes _ rfl) (.prop here decides)
  have forest' : t.graph.Forest := forest.moves made.builds.moves
  have kind : (t.graph.node prop).kind =
      .property (propShapeOf (Shape.ofSchema fragment)) required := by rw [new]; rfl
  have child : (t.graph.node p).children[(r.graph.node p).children.length]? = some prop := by
    rw [made.child, List.getElem?_append_right (Nat.le_refl _), Nat.sub_self]
    rfl
  exact {
    made
    forest := forest'
    opens := ⟨(forest'.below made.mem).2, fun _ => by rw [new]; rfl,
      fun eager => by rw [kind] at eager; cases eager⟩
    size := by rw [← (ends_attach.mp h).2]; exact Graph.size_attach
    kind
    named := by rw [new]; rfl
    made_of := by rw [new]; rfl
    holds := .wrapped child (((made.builds.grows.keeps room.inside).propAt? _).trans here) }

namespace Budded

variable {name : String} {schema fragment : Json} {required : Bool} {prop : Nat} {s : Run}

/-- The element of an array property is the first that is made below it. -/
theorem element (budded : Budded d p name schema fragment required r prop t) {items : Json}
    (array : propShapeOf (Shape.ofSchema fragment) = .array)
    (found : itemsOf? fragment = some items) :
    (t.graph.node prop).propAt? (t.graph.node prop).children.length = some (name, items) := by
  rw [Node.propAt?, budded.kind, array, budded.named, budded.made_of, found]
  rfl

/-- What is built below the property is part of its making. -/
theorem made_with (budded : Budded d p name schema fragment required r prop t)
    (inside : p < r.graph.size) (steps : t.Builds d prop s) (feeds : t.Feeds s)
    (fed : s.graph.FedAt prop) :
    Made d p r prop s ∧ (s.graph.node prop).name = name ∧ r.Feeds s :=
  ⟨budded.made.andThen inside steps,
    (steps.grows.keeps budded.opens.inside).name.trans budded.named,
    .cons budded.size (budded.made.handle ▸ fed) feeds⟩

/-- A scalar property wants nothing below it. -/
theorem made_alone (budded : Budded d p name schema fragment required r prop t)
    (inside : p < r.graph.size) {type : ScalarType} {placeholder : Bool}
    (scalar : propShapeOf (Shape.ofSchema fragment) = .scalar type placeholder) :
    Made d p r prop t ∧ (t.graph.node prop).name = name ∧ r.Feeds t := by
  refine budded.made_with inside (.refl _ _ _) (.refl _) fun _ _ solid => ?_
  rw [Node.isHollow, budded.kind, scalar] at solid
  cases solid

/-- A wrapping property gets the schema that it wraps, and may turn into a circular one. -/
theorem made_wrapped (budded : Budded d p name schema fragment required r prop t)
    (inside : p < r.graph.size) {u : Unit} (h : Ends (wrapSchema prop schema required) t u s)
    (wraps : (propShapeOf (Shape.ofSchema fragment)).isWrapper = true)
    (takes : ∀ c : Kind, c.isSchema = true → (t.graph.node prop).kind.admits c = true) :
    Made d p r prop s ∧ (s.graph.node prop).name = name ∧ r.Feeds s := by
  obtain ⟨v, steps, feeds, fed, rfl | ⟨move, rfl⟩⟩ :=
    wrapSchema_cases h budded.forest budded.opens budded.kind wraps takes budded.holds
  · exact budded.made_with inside steps feeds fed
  · obtain ⟨made, named, feeds⟩ := budded.made_with inside steps feeds fed
    have within := budded.opens.inside
    refine ⟨made.andModify inside move (fun _ => rfl) (fun _ => rfl) fun _ => rfl, ?_, ?_⟩
    · change ((v.graph.modify prop _).node prop).name = name
      simp [within.trans_le steps.grows.size_le, named]
    · have turns : (v.graph.node prop).kind.Turns (.property .circular required) :=
        .inr ⟨_, _, (steps.grows.kind within).trans budded.kind, wraps, rfl⟩
      exact feeds.modify { Node.Keeps.refl _ with kind := turns } fun _ => rfl

end Budded

/-- A property becomes the last child of its owner. -/
theorem propWithin_made {depth : Nat} {name : String} {schema : Json} {required : Bool}
    {followed : List (String × Nat)}
    (h : Ends (propWithin d depth p name schema required followed) r i r') (forest : r.graph.Forest)
    (room : r.graph.Open p)
    (takes : ∀ c : Kind, c.isProperty = true → (r.graph.node p).kind.admits c = true)
    (here : (r.graph.node p).propAt? (r.graph.node p).children.length = some (name, schema))
    (element : followed ≠ [] → (r.graph.node p).kind.isArray = true) :
    Made d p r i r' ∧ (r'.graph.node i).name = name ∧ r.Feeds r' := by
  induction depth generalizing p name schema required followed r i r' with
  | zero => exact absurd h (by rw [propWithin, Ends.throw_iff]; exact id)
  | succ depth ih =>
    rw [propWithin] at h
    split at h
    · next ancestor hit =>
      refine circularElement_made h forest room (element ?_) takes
      rintro rfl
      cases ref : schema.ref? <;> rw [ref] at hit <;> cases hit
    · simp only [Ends.bind_iff, ends_node] at h
      obtain ⟨_, _, ⟨rfl, rfl⟩, fragment, s, decided, prop, t, attached, h⟩ := h
      obtain ⟨decides, rfl⟩ := ends_decisive decided
      have budded := attach_budded attached forest room takes here decides
      split at h
      · next shape =>
        obtain ⟨rfl, rfl⟩ := Ends.pure_iff.mp h
        exact budded.made_alone room.inside shape
      · next shape =>
        exact absurd shape (propShapeOf_ne_circular _)
      · next array =>
        split at h
        · next items found =>
          simp only [Ends.bind_iff, Ends.discard_iff, Ends.pure_iff] at h
          obtain ⟨_, u, ⟨inner, h⟩, rfl, rfl⟩ := h
          have built : Made d prop t inner u ∧ _ ∧ t.Feeds u :=
            ih h budded.forest budded.opens ?_ ?_ ?_
          · obtain ⟨made, -, feeds⟩ := built
            exact budded.made_with room.inside made.builds feeds
              (.of_children (List.ne_nil_of_mem made.mem))
          · rw [budded.kind, array]
            exact fun _ => id
          · exact budded.element array found
          · rw [budded.kind, array]
            exact fun _ => rfl
        · simp only [Ends.bind_iff, Ends.pure_iff] at h
          obtain ⟨_, u, h, rfl, rfl⟩ := h
          obtain ⟨builds, feeds, fed⟩ :=
            placeholderElement_builds h budded.opens (array ▸ budded.kind)
          exact budded.made_with room.inside builds feeds fed
      all_goals
        next shape =>
        simp only [Ends.bind_iff, Ends.pure_iff] at h
        obtain ⟨_, u, h, rfl, rfl⟩ := h
        refine budded.made_wrapped room.inside h (shape ▸ rfl) ?_
        rw [budded.kind, shape]
        exact fun _ => id

/-- **A property is made below its owner, with all that it needs.** -/
theorem fromProp_made {name : String} {schema : Json} {required : Bool}
    (h : Ends (fromProp d p name schema required) r i r') (forest : r.graph.Forest)
    (room : r.graph.Open p)
    (takes : ∀ c : Kind, c.isProperty = true → (r.graph.node p).kind.admits c = true)
    (here : (r.graph.node p).propAt? (r.graph.node p).children.length = some (name, schema)) :
    Made d p r i r' ∧ (r'.graph.node i).name = name ∧ r.Feeds r' := by
  unfold fromProp at h
  simp only [Ends.bind_iff, Ends.get_iff] at h
  obtain ⟨_, _, ⟨rfl, rfl⟩, h⟩ := h
  exact propWithin_made h forest room takes here fun e => absurd rfl e

end Build

end RestGraph
