import RestGraph.Proofs.Graph.Building
import RestGraph.Proofs.Graph.Sited
import RestGraph.Proofs.Run.Yields

/-!
# Making nodes at their sites

The node that is made for a fragment stands at the site that its parent's site and the fragment say,
whatever else is in the graph; and where no node can be made the site says why.
-/

namespace RestGraph

variable {d : Document} {r s t : Run} {p i c : Nat} {x : Seed}

/-- The parent has got one more child, the last node then, and nothing else was worked on that was
there. -/
structure Run.Gains (p i : Nat) (r s : Run) : Prop where
  grows : r.graph.Grows {p} s.graph
  orderly : s.graph.Orderly
  unvisited : Graph.NoNew Node.visited r.graph s.graph
  extent : s.extent = r.extent
  handle : i = r.graph.size
  children : (s.graph.node p).children = (r.graph.node p).children ++ [i]

namespace Run.Gains

/-- What is gained is a child of its parent. -/
theorem mem (gains : Gains p i r s) : i ∈ (s.graph.node p).children := by
  rw [gains.children]
  exact List.mem_append_right _ (List.mem_singleton_self _)

theorem inside (gains : Gains p i r s) : i < s.graph.size := (gains.orderly.below gains.mem).2

/-- The new node stands below its parent. -/
theorem site (gains : Gains p i r s) (inside : p < r.graph.size) :
    s.graph.site i = ⟨(r.graph.site p).line, s.graph.seedAt i, s.graph.innerOf i⟩ := by
  rw [gains.orderly.site_of_child gains.mem, gains.grows.line inside]

/-- A parent that is ready gains the node attached to it. -/
theorem attach (orderly : r.graph.Orderly) (ready : r.graph.Ready p)
    (graph : s.graph = r.graph.attach p x) (extent : s.extent = r.extent) :
    Gains p r.graph.size r s where
  grows := graph ▸ .attach
  orderly := graph ▸ orderly.attach ready
  unvisited := graph ▸ .attach (fun _ _ => rfl) rfl
  extent := extent
  handle := rfl
  children := by simp [graph, ready.inside]

/-- Registries may change before a node is gained. -/
theorem before (gains : Gains p i s t) (graph : s.graph = r.graph) (extent : s.extent = r.extent) :
    Gains p i r t where
  grows := graph ▸ gains.grows
  orderly := gains.orderly
  unvisited := graph ▸ gains.unvisited
  extent := gains.extent.trans extent
  handle := graph ▸ gains.handle
  children := graph ▸ gains.children

/-- The new node gets a child of its own. -/
theorem andThen (gains : Gains p i r s) (inside : p < r.graph.size) (more : Gains i c s t) :
    Gains p i r t where
  grows := gains.grows.trans more.grows fun _ lt e => by
    rw [Set.mem_singleton_iff.mp e, gains.handle] at lt
    exact absurd lt (Nat.lt_irrefl _)
  orderly := more.orderly
  unvisited := gains.unvisited.trans more.unvisited
  extent := more.extent.trans gains.extent
  handle := gains.handle
  children := by
    rw [more.grows.children (inside.trans_le gains.grows.size_le), gains.children]
    rw [Set.mem_singleton_iff, gains.handle]
    exact Nat.ne_of_lt inside

/-- The new node is changed itself. -/
theorem andModify {f : Node → Node} (gains : Gains p i r s) (inside : p < r.graph.size)
    (keep : (s.graph.node i).Keeps (f (s.graph.node i)))
    (children : ∀ n, (f n).children = n.children) (visited : ∀ n, (f n).visited = n.visited) :
    Gains p i r (s.onGraph fun g => g.modify i f) := by
  have old : ∀ {j}, j < r.graph.size → (s.graph.modify i f).node j = s.graph.node j := fun lt =>
    Graph.node_modify_of_ne (gains.handle ▸ Nat.ne_of_lt lt)
  have grows := gains.grows
  refine ⟨⟨⟨?_, grows.roots, fun lt => ?_⟩, fun lt => ?_,
    fun lt free => ?_, fun lt free merged => ?_⟩,
    gains.orderly.modify keep (children _), gains.unvisited.trans (.modify visited), gains.extent,
    gains.handle, ?_⟩
  · exact grows.size_le.trans (Nat.le_of_eq Graph.size_modify.symm)
  · exact (old lt).symm ▸ grows.keeps lt
  · exact (congrArg Node.kind (old lt)).trans (grows.kind lt)
  · exact (congrArg Node.children (old lt)).trans (grows.children lt free)
  · exact (congrArg Node.props (old lt)).trans (grows.props lt free merged)
  · exact (congrArg Node.children (old inside)).trans gains.children

end Run.Gains

/-- The element of a node that was just made is built at once with it. -/
theorem Run.Gains.site_holding (gains : Gains i c s t)
    (eager : (s.graph.node i).kind.isEager = true)
    (inside : i < s.graph.size) (children : (s.graph.node i).children = []) :
    t.graph.site i = (s.graph.site i).holding (t.graph.site c) := by
  have only : (t.graph.node i).children = [c] := by rw [gains.children, children]; rfl
  obtain ⟨seed, above⟩ := List.cons.inj (gains.grows.line inside)
  refine Site.ext above seed ?_
  exact Graph.innerOf_of_first (gains.grows.kind inside ▸ eager)
    only (gains.orderly.below gains.mem)

namespace Build

variable {excused : Fault → Prop} {depth : Nat} {schema : Json}

/-- A node that is attached stands below its parent with nothing of its own. -/
theorem site_attach (orderly : r.graph.Orderly) (ready : r.graph.Ready p)
    (graph : s.graph = r.graph.attach p x) (extent : s.extent = r.extent) :
    s.graph.site r.graph.size =
      (r.graph.site p).below (r.graph.sprout (some p) x).seed := by
  have gains := Run.Gains.attach orderly ready graph extent
  rw [gains.site ready.inside, Graph.innerOf_of_childless, Graph.seedAt, graph,
    Graph.node_attach_size ready.inside]
  · rfl
  · rw [graph, Graph.node_attach_size ready.inside]
    rfl

/-- To attach a checked seed never fails. -/
theorem attachChecked_ends (r : Run) (p : Nat) (x : Seed) :
    ∃ s, Ends (attachChecked p x) r r.graph.size s := by
  have looked : ∀ {s : Run} {m : Graph → Build Nat}, Ends (m r.graph) r r.graph.size s →
      Ends (graph >>= m) r r.graph.size s := fun h =>
    Ends.bind_iff.mpr ⟨_, r, ends_graph.mpr ⟨rfl, rfl⟩, h⟩
  unfold attachChecked
  cases hit : r.graph.lineageHit? p x.id with
  | some ancestor =>
    refine ⟨(r.warn (r.graph.pathOf p) .circularReference (circularText x.id)).onGraph fun g =>
      g.attach p { x with kind := .circular ancestor, discriminant := x.id }, looked ?_⟩
    rw [hit]
    exact Ends.bind_iff.mpr ⟨⟨⟩, _, ends_warn.mpr rfl, ends_attach.mpr ⟨rfl, rfl⟩⟩
  | none =>
    by_cases reference : ∃ pointer, x.kind = .reference pointer
    · obtain ⟨pointer, kind⟩ := reference
      refine ⟨(r.addRef pointer).onGraph fun g => g.attach p x, looked ?_⟩
      rw [hit, kind]
      exact Ends.bind_iff.mpr ⟨⟨⟩, _, Ends.modify_iff.mpr rfl, ends_attach.mpr ⟨rfl, rfl⟩⟩
    · refine ⟨r.onGraph fun g => g.attach p x, looked ?_⟩
      rw [hit]
      dsimp only
      split
      · next pointer kind => exact absurd ⟨pointer, kind⟩ reference
      · exact ends_attach.mpr ⟨rfl, rfl⟩

/-- What a node looks like once it is made. -/
def MadeAt (p : Nat) (r : Run) (c : Site) (i : Nat) (s : Run) : Prop :=
  s.graph.site i = c ∧ r.Gains p i s

/-- An attached node is made where its seed says. -/
theorem attach_madeAt {y : Seed} (orderly : r.graph.Orderly) (ready : r.graph.Ready p)
    (graph : s.graph = r.graph) (extent : s.extent = r.extent)
    (seed : (r.graph.sprout (some p) x).seed = y) :
    MadeAt p r ((r.graph.site p).below y) r.graph.size (s.onGraph fun g => g.attach p x) := by
  have attached : (s.onGraph fun g => g.attach p x).graph = r.graph.attach p x :=
    congrArg (·.attach p x) graph
  rw [← seed]
  exact ⟨site_attach orderly ready attached extent, .attach orderly ready attached extent⟩

theorem attach_yields {y : Seed} (orderly : r.graph.Orderly) (ready : r.graph.Ready p)
    (graph : s.graph = r.graph) (extent : s.extent = r.extent)
    (seed : (r.graph.sprout (some p) x).seed = y) :
    Yields excused (attach p x) s (fun _ => .ok ((r.graph.site p).below y)) (MadeAt p r) :=
  .of_ends (ends_attach.mpr ⟨congrArg Graph.size graph, rfl⟩)
    (attach_madeAt orderly ready graph extent seed)

/-- Warning of missing items never fails. -/
theorem warnMissingItems_ends (r : Run) (p : Nat) : ∃ s, Ends (warnMissingItems p) r ⟨⟩ s ∧
    s.graph = r.graph ∧ s.extent = r.extent := by
  unfold warnMissingItems
  simp only [Ends.bind_iff, ends_pathOf, ends_warn]
  exact ⟨_, ⟨_, _, ⟨rfl, rfl⟩, rfl⟩, rfl, rfl⟩

theorem attachPlaceholder_yields (orderly : r.graph.Orderly) (ready : r.graph.Ready p)
    (graph : s.graph = r.graph) (extent : s.extent = r.extent)
    (childless : (r.graph.node p).children = []) :
    Yields excused (attachPlaceholder p) s (fun _ => .ok (r.graph.site p).placeholder)
      (MadeAt p r) := by
  obtain ⟨t, warned, graph', extent'⟩ := warnMissingItems_ends s p
  have names : ChildNames.below ((r.graph.site p).seed.node 0) =
      ChildNames.below (t.graph.node p) := by
    have below := ChildNames.below_seed (r.graph.node p)
    rw [childless] at below
    rw [graph', graph, ← below]
    rfl
  unfold attachPlaceholder Site.placeholder
  rw [names]
  refine .after warned (.after (ends_node.mpr ⟨rfl, rfl⟩) ?_)
  exact attach_yields orderly ready (graph'.trans graph) (extent'.trans extent)
    (Graph.seed_sprout Tag.noConfusion)

/-- An array that was just made gets its element, and any other node stays as it is. -/
theorem fillArray_yields {element : Nat → Json → Build Nat}
    {elementSite : Site → Json → Except Fault Site}
    (orderly : r.graph.Orderly) (inside : i < r.graph.size)
    (childless : (r.graph.node i).children = []) (graph : s.graph = r.graph)
    (extent : s.extent = r.extent)
    (each : ∀ items, (r.graph.node i).kind = .array →
      Yields excused (element i items) s (fun _ => elementSite (r.graph.site i) items)
        (MadeAt i r)) :
    Yields excused (fillArray element i schema (r.graph.node i).kind) s
      (fun _ => (r.graph.site i).filled elementSite schema) fun c _ t => t.graph.site i = c ∧
        (t.graph = r.graph ∧ t.extent = r.extent ∨ ∃ e, r.Gains i e t) := by
  have holding : (r.graph.node i).kind = .array → ∀ {e c : Site} {j t}, MadeAt i r e j t →
      c = (r.graph.site i).holding e → t.graph.site i = c ∧
        (t.graph = r.graph ∧ t.extent = r.extent ∨ ∃ e, r.Gains i e t) := by
    rintro array e _ j t ⟨rfl, gains⟩ rfl
    exact ⟨gains.site_holding (by rw [array]; rfl) inside childless, .inr ⟨j, gains⟩⟩
  have kind : (r.graph.site i).seed.kind = (r.graph.node i).kind.unaimed := rfl
  unfold fillArray
  split
  · next array =>
    have ready : r.graph.Ready i :=
      ⟨inside, fun late => (by rw [array] at late; cases late), fun _ => childless⟩
    unfold Site.filled
    rw [kind, array]
    dsimp only [Kind.unaimed]
    cases itemsOf? schema with
    | some items => exact (each items array).discard fun made => holding array made rfl
    | none =>
      exact Yields.discard (g := (r.graph.site i).holding)
        (attachPlaceholder_yields orderly ready graph extent childless)
        fun made => holding array made rfl
  · next other =>
    rw [Site.filled_of_not_array]
    · exact .pure ⟨by rw [graph], .inl ⟨graph, extent⟩⟩
    · rw [kind]
      cases kind : (r.graph.node i).kind <;>
        first | exact Kind.noConfusion | exact absurd kind other

theorem settle_yields {element : Nat → Json → Build Nat}
    {elementSite : Site → Json → Except Fault Site}
    (orderly : r.graph.Orderly) (inside : i < r.graph.size)
    (childless : (r.graph.node i).children = [])
    (each : ∀ items s, s.graph = r.graph → s.extent = r.extent → (r.graph.node i).kind = .array →
      Yields excused (element i items) s (fun _ => elementSite (r.graph.site i) items)
        (MadeAt i r)) :
    Yields excused (settle element p i schema) r
      (fun _ => (r.graph.site i).filled elementSite schema) fun c _ t => t.graph.site i = c ∧
        (t.graph = r.graph ∧ t.extent = r.extent ∨ ∃ e, r.Gains i e t) := by
  have fills : ∀ s : Run, s.graph = r.graph → s.extent = r.extent →
      Yields excused (fillArray element i schema (r.graph.node i).kind) s _ _ :=
    fun s graph extent => fillArray_yields orderly inside childless graph extent fun items =>
      each items s graph extent
  unfold settle
  refine .after (ends_node.mpr ⟨rfl, rfl⟩) (.after (ends_node.mpr ⟨rfl, rfl⟩) ?_)
  dsimp only
  split
  · exact fills r rfl rfl
  · exact .after (Ends.modify_iff (u := ⟨⟩).mpr rfl) (fills (r.register i _) rfl rfl)
  · exact fills r rfl rfl

/-- A node that is attached after its id was compared with those above. -/
theorem attachChecked_made {s : Run} (h : Ends (attachChecked p x) r i s)
    (orderly : r.graph.Orderly) (ready : r.graph.Ready p) (other : x.kind.tag ≠ .circular) :
    MadeAt p r ((r.graph.site p).below ((r.graph.site p).checked x)) i s ∧
      (s.graph.node i).children = [] := by
  obtain ⟨rfl, graph, -, -, extent⟩ := ends_attachChecked h
  refine ⟨⟨?_, .attach orderly ready graph extent⟩, ?_⟩
  · rw [site_attach orderly ready graph extent, orderly.seed_checked ready.inside other]
  · rw [graph, Graph.node_attach_size ready.inside]
    rfl

/-- What is made below a node for a fragment, when its shape is known. -/
theorem ofSchema_succ (p : Nat) (schema : Json) (depth : Nat) :
    Site.ofSchema (depth + 1) (r.graph.site p) (r.graph.node p).children.length schema =
      match (r.graph.node p).seedBelow? schema with
      | none => .error (.schema schema (r.graph.pathOf p))
      | some x => ((r.graph.site p).below ((r.graph.site p).checked x)).filled
          (fun c items => Site.ofSchema depth c 0 items) schema := by
  rw [Site.ofSchema, Graph.path_site]
  change (match ((r.graph.node p).seed.node _).seedBelow? schema with | none => _ | some x => _) = _
  rw [Node.seedBelow?_seed]

theorem attachReference_yields {pointer : String} (orderly : r.graph.Orderly)
    (ready : r.graph.Ready p) (seed : (r.graph.node p).seedBelow? schema = some x)
    (kind : x.kind = .reference pointer) :
    Yields excused (attachChecked p x) r
      (fun _ => Site.ofSchema (depth + 1) (r.graph.site p) (r.graph.node p).children.length schema)
      (MadeAt p r) := by
  obtain ⟨s, h⟩ := attachChecked_ends r p x
  have other : x.kind.tag ≠ .circular := by rw [kind]; exact Tag.noConfusion
  rw [ofSchema_succ, seed]
  dsimp only
  rw [Site.filled_of_not_array]
  · exact .of_ends h (attachChecked_made h orderly ready other).1
  · change ((r.graph.site p).checked x).kind ≠ .array
    unfold Site.checked
    split
    · exact Kind.noConfusion
    · rw [kind]
      exact Kind.noConfusion

theorem attachSchema_yields (orderly : r.graph.Orderly) (ready : r.graph.Ready p)
    (seed : (r.graph.node p).seedBelow? schema = some x) (other : x.kind.tag ≠ .circular)
    (ih : ∀ {r p schema}, r.graph.Orderly → r.graph.Ready p →
      Yields excused (fromSchemaWithin depth p schema) r
        (fun _ => Site.ofSchema depth (r.graph.site p) (r.graph.node p).children.length schema)
        (MadeAt p r)) :
    Yields excused (do
        let i ← attachChecked p x
        settle (fromSchemaWithin depth) p i schema
        return i) r
      (fun _ => Site.ofSchema (depth + 1) (r.graph.site p) (r.graph.node p).children.length schema)
      (MadeAt p r) := by
  obtain ⟨s, h⟩ := attachChecked_ends r p x
  obtain ⟨⟨site, gains⟩, childless⟩ := attachChecked_made h orderly ready other
  have each : ∀ items t, t.graph = s.graph → t.extent = s.extent →
      (s.graph.node r.graph.size).kind = .array →
      Yields excused (fromSchemaWithin depth r.graph.size items) t
        (fun _ => Site.ofSchema depth (s.graph.site r.graph.size) 0 items)
        (MadeAt r.graph.size s) := fun items t graph extent array => by
    have ready : s.graph.Ready r.graph.size :=
      ⟨gains.inside, fun late => (by rw [array] at late; cases late), fun _ => childless⟩
    have made : Yields excused (fromSchemaWithin depth r.graph.size items) t _ _ :=
      ih (graph ▸ gains.orderly) (graph ▸ ready)
    rw [graph, childless] at made
    refine made.imp ?_
    exact fun both => ⟨both.1, both.2.before graph extent⟩
  rw [ofSchema_succ, seed]
  dsimp only
  rw [← site]
  refine .after h ((settle_yields gains.orderly gains.inside childless each).answer ?_)
  rintro c - t ⟨here, ⟨graph, extent⟩ | ⟨e, more⟩⟩
  · exact ⟨here, graph ▸ gains.grows, graph ▸ gains.orderly, graph ▸ gains.unvisited,
      extent.trans gains.extent, rfl, graph ▸ gains.children⟩
  · exact ⟨here, gains.andThen ready.inside more⟩

theorem fromSchemaWithin_yields (orderly : r.graph.Orderly) (ready : r.graph.Ready p) :
    Yields excused (fromSchemaWithin depth p schema) r
      (fun _ => Site.ofSchema depth (r.graph.site p) (r.graph.node p).children.length schema)
      (MadeAt p r) := by
  induction depth generalizing p r schema with
  | zero => exact .throw
  | succ depth ih =>
    rw [fromSchemaWithin]
    refine .after (ends_node.mpr ⟨rfl, rfl⟩) ?_
    dsimp only
    split
    · next pointer shape =>
      exact attachReference_yields orderly ready (by rw [Node.seedBelow?, shape]) rfl
    · next shape notRef =>
      split
      · next unknown =>
        have none : (r.graph.node p).seedBelow? schema = none := by
          unfold Node.seedBelow?
          dsimp only
          split
          · next pointer shape => exact absurd shape (notRef pointer)
          · rw [unknown]
            rfl
        rw [ofSchema_succ, none]
        exact .after (ends_pathOf.mpr ⟨rfl, rfl⟩) .throw
      · next kind known =>
        refine attachSchema_yields orderly ready (Node.seedBelow?_of_kind notRef known) ?_ ih
        unfold kindOfShape? at known
        split at known <;> cases known <;> exact Tag.noConfusion

/-- **Building a schema yields what its site says.** -/
theorem fromSchema_yields (orderly : r.graph.Orderly) (ready : r.graph.Ready p) :
    Yields excused (fromSchema p schema) r
      (fun _ => Site.ofSchema schema.size (r.graph.site p) (r.graph.node p).children.length schema)
      (MadeAt p r) :=
  fromSchemaWithin_yields orderly ready

/-! ## Properties -/

theorem decisive_yields (extent : r.extent = d.root.size) :
    Yields excused (decisive d p schema) r (fun _ => d.decisive (r.graph.pathOf p) schema)
      (fun b a s => a = b ∧ r = s) := by
  unfold decisive Document.decisive
  cases schema.ref? with
  | none => exact .pure ⟨rfl, rfl⟩
  | some pointer =>
    refine .after (Ends.get_iff.mpr ⟨rfl, rfl⟩) (Yields.liftExcept.bind ?_)
    rintro target _ _ - ⟨-, rfl, rfl⟩
    rw [extent]
    exact Yields.liftExcept.imp fun both => ⟨both.2.1, both.2.2.symm⟩

/-- A property that was just attached, with nothing built below it. -/
structure Attached (p : Nat) (r : Run) (x : Seed) (i : Nat) (s : Run) : Prop where
  made : MadeAt p r ((r.graph.site p).below x) i s
  kind : (s.graph.node i).kind = x.kind
  childless : (s.graph.node i).children = []

namespace Attached

variable {e : Site} {j : Nat}

/-- A property that was just attached is ready for its child. -/
theorem ready (attached : Attached p r x i s) (prop : x.kind.isProperty = true) :
    s.graph.Ready i := by
  refine ⟨attached.made.2.inside, fun late => ?_, fun _ => attached.childless⟩
  rw [attached.kind] at late
  cases kind : x.kind <;> rw [kind] at prop late <;>
    first | exact Bool.noConfusion prop | exact Bool.noConfusion late

/-- What is made below the property is built at once with it. -/
theorem wrap (attached : Attached p r x i s) (inside : p < r.graph.size)
    (prop : x.kind.isProperty = true) (made : MadeAt i s e j t) :
    MadeAt p r (((r.graph.site p).below x).holding e) i t := by
  obtain ⟨rfl, more⟩ := made
  have gains := attached.made.2
  refine ⟨?_, gains.andThen inside more⟩
  rw [← attached.made.1]
  refine more.site_holding ?_ gains.inside attached.childless
  rw [attached.kind]
  cases kind : x.kind <;> rw [kind] at prop <;> first | rfl | cases prop

end Attached

/-- What follows when a property is attached. -/
theorem attached_after {α β : Type} {f : Nat → Build α} {y : Nat → Except Fault β}
    {Q : β → α → Run → Prop} (orderly : r.graph.Orderly) (ready : r.graph.Ready p)
    (graph : s.graph = r.graph) (extent : s.extent = r.extent) (prop : x.kind.isProperty = true)
    (next : ∀ t, Attached p r x r.graph.size t → t.extent = r.extent →
      Yields excused (f r.graph.size) t y Q) : Yields excused (attach p x >>= f) s y Q := by
  have node : ((s.onGraph fun g => g.attach p x).graph.node r.graph.size) =
      r.graph.sprout (some p) x := by
    change (s.graph.attach p x).node r.graph.size = _
    simp [graph, ready.inside]
  have other : x.kind.tag ≠ .circular := fun tag => by
    rw [Kind.isProperty, tag] at prop
    cases prop
  refine .after (ends_attach.mpr ⟨congrArg Graph.size graph, rfl⟩) (next _ ⟨?_, ?_, ?_⟩ extent)
  · exact attach_madeAt orderly ready graph extent (Graph.seed_sprout other)
  · rw [node]
    rfl
  · rw [node]
    rfl

theorem circularElement_yields {name : String} {ancestor : Nat} (orderly : r.graph.Orderly)
    (ready : r.graph.Ready p) :
    Yields excused (circularElement p name schema ancestor) r
      (fun _ => .ok ((r.graph.site p).circularElement name schema (r.graph.idAt ancestor)))
      (MadeAt p r) := by
  unfold circularElement Site.circularElement
  refine .after (ends_graph.mpr ⟨rfl, rfl⟩) (.after (ends_warn (u := ⟨⟩).mpr rfl) ?_)
  dsimp only
  refine attached_after orderly ready rfl rfl rfl fun t attached _ => ?_
  have leaf : Yields excused (attach r.graph.size ⟨.circular ancestor, name,
      r.graph.idAt ancestor, (r.graph.node p).scope ++ "[]", schema⟩) t _ _ :=
    attach_yields attached.made.2.orderly (attached.ready rfl) rfl rfl rfl
  rw [attached.made.1] at leaf
  exact Yields.answer (leaf.discard (R := fun c _ => MadeAt p r c r.graph.size)
    fun made => attached.wrap ready.inside rfl made) id

theorem placeholderElement_yields {name : String} (orderly : r.graph.Orderly)
    (ready : r.graph.Ready p) :
    Yields excused (placeholderElement p name) r
      (fun _ => .ok ((r.graph.site p).placeholderElement name)) fun c _ s => ∃ i,
      MadeAt p r c i s := by
  obtain ⟨s, warned, graph, extent⟩ := warnMissingItems_ends r p
  unfold placeholderElement Site.placeholderElement
  refine .after warned (.after (ends_node.mpr ⟨rfl, rfl⟩) ?_)
  rw [graph]
  exact Yields.discard (g := id) (attach_yields orderly ready graph extent
    (Graph.seed_sprout Tag.noConfusion)) fun made => ⟨_, made⟩

/-- A property that turned out to close a cycle. -/
def turned (required : Bool) (n : Node) : Node := { n with kind := .property .circular required }

/-- A wrapper that turned circular is made where its turned seed says. -/
theorem turn_made {required : Bool} {shape : PropShape} {e : Site} {j : Nat}
    (attached : Attached p r x i s) (inside : p < r.graph.size)
    (kind : x.kind = .property shape required) (wraps : shape.isWrapper = true)
    (made : MadeAt i s e j t) :
    MadeAt p r (Site.holding
        { (r.graph.site p).below x with seed := { x with kind := .property .circular required } } e)
        i
      (t.onGraph fun g => g.modify i (turned required)) := by
  obtain ⟨site, gains⟩ := attached.wrap inside (by rw [kind]; rfl) made
  obtain ⟨rfl, more⟩ := made
  have kind' : (t.graph.node i).kind = .property shape required := by
    rw [more.grows.kind attached.made.2.inside, attached.kind, kind]
  have children : (t.graph.node i).children = [j] := by
    rw [more.children, attached.childless]
    rfl
  have after := gains.andModify (f := turned required) inside
    { Node.Keeps.refl _ with kind := .inr ⟨shape, required, kind', wraps, rfl⟩ }
    (fun _ => rfl) fun _ => rfl
  have node : (t.graph.modify i (turned required)).node i = turned required (t.graph.node i) :=
    Graph.node_modify_self gains.inside
  have bounds := gains.orderly.below (children ▸ List.mem_singleton_self j)
  refine ⟨(after.site inside).trans (Site.ext rfl ?_ ?_), after⟩
  · have seed : t.graph.seedAt i = x := congrArg Site.seed site
    change ((t.graph.modify i (turned required)).node i).seed = _
    rw [node, ← seed]
    rfl
  · change (t.graph.modify i (turned required)).innerOf i = t.graph.seedAt j :: t.graph.innerOf j
    rw [Graph.innerOf_of_first (c := j) (by rw [node]; rfl) (by rw [node, ← children]; rfl)
      (by simpa), gains.orderly.innerOf_modify bounds.1, Graph.seedAt,
      Graph.node_modify_of_ne (Nat.ne_of_gt bounds.1), Graph.seedAt]

theorem wrapSchema_yields {required : Bool} {shape : PropShape} (attached : Attached p r x i s)
    (inside : p < r.graph.size) (kind : x.kind = .property shape required)
    (wraps : shape.isWrapper = true) :
    Yields excused (wrapSchema i schema required) s
      (fun _ => ((r.graph.site p).below x).around required <$>
        Site.ofSchema schema.size ((r.graph.site p).below x) 0 schema)
      fun c _ t => MadeAt p r c i t := by
  have prop : x.kind.isProperty = true := by rw [kind]; rfl
  have wrapped : Yields excused (fromSchema i schema) s _ _ :=
    fromSchema_yields attached.made.2.orderly (attached.ready prop)
  rw [attached.made.1, attached.childless] at wrapped
  refine wrapped.bind_map fun {j e t} _ made => .after (ends_node.mpr ⟨rfl, rfl⟩) ?_
  have seed : e.seed.kind = (t.graph.node j).kind.unaimed :=
    congrArg (fun c : Site => c.seed.kind) made.1.symm
  unfold Site.around
  rw [seed]
  split
  · next ancestor circular =>
    rw [circular]
    exact .of_ends (ends_modifyNode (u := ⟨⟩).mpr rfl) (turn_made attached inside kind wraps made)
  · next other =>
    have plain : ∀ ancestor, (t.graph.node j).kind.unaimed ≠ .circular ancestor := by
      cases kind : (t.graph.node j).kind <;>
        first | exact fun _ => Kind.noConfusion | exact absurd kind (other _)
    split
    · next ancestor circular => exact absurd circular (plain ancestor)
    · exact .pure (attached.wrap inside prop made)

/-- A map of the values is seen in what is looked up. -/
@[simp] theorem lookup_map_snd {α β : Type} (f : α → β) (l : List (String × α)) (key : String) :
    (l.map fun x => (x.1, f x.2)).lookup key = (l.lookup key).map f := by
  induction l with
  | nil => rfl
  | cons x l ih =>
    rw [List.map_cons, List.lookup_cons, List.lookup_cons, ih]
    cases key == x.1 <;> rfl

/-- The references that were followed, with the ids of the arrays that they led to. -/
def named (g : Graph) (followed : List (String × Nat)) : List (String × String) :=
  followed.map fun x => (x.1, g.idAt x.2)

/-- The scope for a child, as its parent has it. -/
@[simp] theorem scopeOf_site (g : Graph) (i : Nat) (name : String) : (g.site i).scopeOf name =
    if (g.node i).isProperty then (g.node i).scope ++ "[]"
    else (g.node i).scope ++ "." ++ name := by
  rw [Site.scopeOf]
  change (if (g.seedAt i).kind.isProperty then _ else _) = _
  rw [Graph.isProperty_seedAt]
  rfl

/-- The element of an array property is built at once with it. -/
theorem wrapElement_yields {name : String} {items : Json} {inner : List (String × Nat)}
    {names : List (String × String)} (attached : Attached p r x i s) (inside : p < r.graph.size)
    (prop : x.kind.isProperty = true) (same : named s.graph inner = names)
    (element : Yields (· = .depth) (propWithin d depth i name items false inner) s
      (fun n => Site.ofProp d n (s.graph.site i) name items false (named s.graph inner))
      (MadeAt i s)) :
    Yields (· = .depth) (do
        discard (propWithin d depth i name items false inner)
        return i) s
      (fun n => ((r.graph.site p).below x).holding <$>
        Site.ofProp d n ((r.graph.site p).below x) name items false names)
      (MadeAt p r) := by
  rw [attached.made.1, same] at element
  exact Yields.answer (element.discard (R := fun c _ => MadeAt p r c i)
    fun made => attached.wrap inside prop made) id

theorem propWithin_yields {name : String} {required : Bool} {followed : List (String × Nat)}
    (orderly : r.graph.Orderly) (ready : r.graph.Ready p) (extent : r.extent = d.root.size)
    (old : ∀ x ∈ followed, x.2 < r.graph.size) :
    Yields (· = .depth) (propWithin d depth p name schema required followed) r
      (fun n => Site.ofProp d n (r.graph.site p) name schema required (named r.graph followed))
      (MadeAt p r) := by
  induction depth generalizing p name schema required followed r with
  | zero => exact .throw_excused rfl
  | succ depth ih =>
    refine .of_succ ?_
    have met : (schema.ref?.bind fun p => (named r.graph followed).lookup p) =
        (schema.ref?.bind fun p => followed.lookup p).map r.graph.idAt := by
      cases schema.ref? with
      | none => rfl
      | some pointer => exact lookup_map_snd r.graph.idAt followed pointer
    unfold Site.ofProp
    rw [propWithin, met]
    cases schema.ref?.bind fun p => followed.lookup p with
    | some ancestor => exact circularElement_yields orderly ready
    | none =>
      dsimp only [Option.map_none]
      refine .after (ends_node.mpr ⟨rfl, rfl⟩) ?_
      rw [Graph.path_site]
      refine (decisive_yields extent).bind ?_
      rintro fragment _ _ - ⟨rfl, rfl⟩
      rw [scopeOf_site]
      generalize propShapeOf (Shape.ofSchema fragment) = shape
      refine attached_after orderly ready rfl rfl rfl fun t attached extent' => ?_
      cases shape with
      | scalar | circular => exact .pure attached.made
      | array =>
        dsimp only
        cases itemsOf? fragment with
        | some items =>
          have ids : named t.graph followed = named r.graph followed :=
            List.map_congr_left fun x mem => by rw [attached.made.2.grows.idAt (old x mem)]
          have seed : t.graph.seedAt r.graph.size = _ := congrArg Site.seed attached.made.1
          have element : ∀ {inner}, (∀ x ∈ inner, x.2 < t.graph.size) → Yields (· = .depth)
              (propWithin d depth r.graph.size name items false inner) t _ _ :=
            ih attached.made.2.orderly (attached.ready rfl) (extent'.trans extent)
          have older : ∀ x ∈ followed, x.2 < t.graph.size := fun x mem =>
            (old x mem).trans_le attached.made.2.grows.size_le
          cases schema.ref? with
          | none => exact wrapElement_yields attached ready.inside rfl ids (element older)
          | some pointer =>
            refine wrapElement_yields attached ready.inside rfl ?_ (element fun x mem => ?_)
            · rw [named, List.map_cons, ← Graph.id_seedAt, seed]
              exact congrArg _ ids
            · rcases List.mem_cons.mp mem with rfl | mem
              · exact attached.made.2.inside
              · exact older x mem
        | none =>
          have element : Yields (· = .depth) (placeholderElement r.graph.size name) t _ _ :=
            placeholderElement_yields attached.made.2.orderly (attached.ready rfl)
          rw [attached.made.1] at element
          refine element.bind_map fun _ under => ?_
          obtain ⟨_, made⟩ := under
          exact .pure (attached.wrap ready.inside rfl made)
      | object | composed | enum =>
        exact (wrapSchema_yields attached ready.inside rfl rfl).answer id

end Build

end RestGraph
