import RestGraph.Proofs.Graph.Grafting

/-!
# Telling where

Warnings say where they belong by the path of a node, as it is when the warning is given. Later
steps leave the paths of nodes alone, but for one case: a property whose value closes a cycle is
made under the shape of the value, the warning is given, and then the property is turned into one
that closes a cycle itself. The path in that warning is one that the property had and has no longer.
-/

namespace RestGraph

variable {d : Document} {r s t u : Run} {g h : Graph} {i p o : Nat} {x : Seed} {name : String}
  {schema : Json} {required : Bool} {w : Warning}

namespace Graph

/-- The path of a node under another id. -/
def pathWith (g : Graph) (i : Nat) (id : String) : String :=
  joinPath (((g.ancestors i).reverse.map fun a => abbreviate (g.idAt a)) ++ [abbreviate id])

/-- With its own id, a node has its own path. -/
@[simp] theorem pathWith_idAt (g : Graph) (i : Nat) : g.pathWith i (g.idAt i) = g.pathOf i := by
  rw [pathWith, pathOf, chain, List.reverse_cons, List.map_append, List.map_singleton]

/-- The text was the path of a property before the property was turned into one that closes a
cycle. -/
inductive Outdated (g : Graph) : String → Prop
  | turned {p c ancestor : Nat} {shape : PropShape} {required : Bool}
    (kind : (g.node p).kind = .property .circular required) (child : c ∈ (g.node p).children)
    (closes : (g.node c).kind = .circular ancestor) (wraps : shape.isWrapper = true)
    (other : shape ≠ .circular) :
    Outdated g (g.pathWith p (idOf (.property shape required) (g.node p).discriminant))

/-- The warning belongs to a node of the graph. -/
def Locates (g : Graph) (w : Warning) : Prop :=
  (∃ i < g.size, w.location = g.pathOf i) ∨ w.kind = .circularReference ∧ g.Outdated w.location

/-- The path below ancestors that keep their ids stays. -/
theorem Extends.pathWith (step : g.Extends h) (lt : i < g.size)
    (ids : ∀ a < i, h.idAt a = g.idAt a) (id : String) : h.pathWith i id = g.pathWith i id := by
  rw [Graph.pathWith, Graph.pathWith, step.ancestors lt]
  refine congrArg (fun ids => joinPath (ids ++ [abbreviate id]))
    (List.map_congr_left fun a above => ?_)
  rw [ids a (lt_of_mem_ancestors (List.mem_reverse.mp above))]

namespace Grows

variable {busy : Set Nat} (step : g.Grows busy h)

include step

/-- A path that is outdated stays so. -/
theorem outdated {text : String} (outdated : g.Outdated text) : h.Outdated text := by
  obtain @⟨p, c, _, _, _, kind, child, closes, wraps, other⟩ := outdated
  have inside : p < g.size := lt_size_of_child child
  have below : c < g.size := lt_size_of_ne fun nowhere => by
    rw [nowhere] at closes
    cases closes
  have keeps := step.keeps inside
  have path := step.toExtends.pathWith inside fun a above => step.idAt (above.trans inside)
  rw [← path, ← keeps.discriminant]
  exact .turned ((step.kind inside).trans kind) (keeps.children.subset child)
    ((step.kind below).trans closes) wraps other

/-- A warning that locates a node goes on locating it. -/
theorem locates (locates : g.Locates w) : h.Locates w := by
  rcases locates with ⟨i, inside, location⟩ | ⟨kind, outdated⟩
  · exact .inl ⟨i, inside.trans_le step.size_le, location.trans (step.pathOf inside).symm⟩
  · exact .inr ⟨kind, step.outdated outdated⟩

end Grows

end Graph

namespace Run

/-- No node has changed its path, and every new warning belongs to a node. -/
structure Tells (r s : Run) : Prop where
  grows : r.graph.Grows Set.univ s.graph
  warnings : ∀ w ∈ s.warnings, w ∈ r.warnings ∨ s.graph.Locates w

instance : IsPreorder Run Tells where
  refl _ := ⟨.refl _ _, fun _ old => .inl old⟩
  trans _ _ _ first second :=
    ⟨first.grows.trans second.grows fun _ _ _ => trivial, fun w mem =>
      (second.warnings w mem).elim
        (fun old => (first.warnings w old).imp_right second.grows.locates) .inr⟩

namespace Tells

/-- Only the graph and the warnings tell. -/
theorem of_same (graph : s.graph = r.graph) (warnings : s.warnings = r.warnings) : r.Tells s where
  grows := by
    rw [graph]
    exact .refl _ _
  warnings w mem := .inl (warnings ▸ mem)

/-- A warning is given at the path of a node. -/
theorem warn (inside : i < r.graph.size) {k : WarningKind} {message : String} :
    r.Tells (r.warn (r.graph.pathOf i) k message) where
  grows := .refl _ _
  warnings w mem := (List.mem_append.mp mem).imp_right fun new => by
    rw [List.mem_singleton.mp new]
    exact .inl ⟨i, inside, rfl⟩

/-- To attach a node tells nothing wrong. -/
theorem attach : r.Tells (r.onGraph fun g => g.attach p x) where
  grows := Graph.Grows.attach.mono fun _ _ _ => trivial
  warnings _ old := .inl old

/-- A modification that leaves the kind tells nothing wrong. -/
theorem modify {f : Node → Node} (keep : (r.graph.node i).Keeps (f (r.graph.node i)))
    (kind : (f (r.graph.node i)).kind = (r.graph.node i).kind) :
    r.Tells (r.onGraph fun g => g.modify i f) where
  grows := (Graph.Grows.modify keep kind).mono fun _ _ _ => trivial
  warnings _ old := .inl old

/-- Telling removes no node. -/
theorem size_le (tells : r.Tells s) : r.graph.size ≤ s.graph.size := tells.grows.size_le

end Tells

end Run

namespace Build

/-! ## Nodes from fragments -/

theorem attach_tells : Along Run.Tells (attach p x) r :=
  Along.get.bind fun _ _ => Along.bind (.modify .attach) fun _ _ => .pure _

/-- A warning with the path of a node tells where it is. -/
theorem warn_tells (inside : i < r.graph.size) {k : WarningKind} {message : String} :
    Along Run.Tells (warn (r.graph.pathOf i) k message) r := .modify (.warn inside)

/-- What touches neither graph nor warnings tells nothing wrong. -/
theorem modify_tells {f : Run → Run} (graph : (f r).graph = r.graph)
    (warnings : (f r).warnings = r.warnings) : Along Run.Tells (modify f : Build PUnit) r :=
  .modify (.of_same graph warnings)

/-- Only a node of the graph has a lineage to hit. -/
theorem lt_size_of_lineageHit {id : String} {ancestor : Nat}
    (hit : r.graph.lineageHit? p id = some ancestor) : p < r.graph.size :=
  Graph.lt_size_of_ne fun nowhere => by
    rw [Graph.lineageHit?, nowhere] at hit
    cases hit

theorem attachChecked_tells : Along Run.Tells (attachChecked p x) r := by
  refine along_graph.bind fun got _ => ?_
  obtain ⟨rfl, rfl⟩ := ends_graph.mp got
  split
  · next hit => exact (warn_tells (lt_size_of_lineageHit hit)).bind fun _ _ => attach_tells
  · split
    · exact (modify_tells rfl rfl).bind fun _ _ => attach_tells
    · exact (Along.pure _).bind fun _ _ => attach_tells

theorem warnMissingItems_tells (inside : i < r.graph.size) :
    Along Run.Tells (warnMissingItems i) r :=
  along_pathOf.bind fun got _ => by
    obtain ⟨rfl, rfl⟩ := ends_pathOf.mp got
    exact warn_tells inside

theorem attachPlaceholder_tells (inside : i < r.graph.size) :
    Along Run.Tells (attachPlaceholder i) r :=
  (warnMissingItems_tells inside).bind fun _ _ => along_node.bind fun _ _ => attach_tells

theorem settle_tells {element : Nat → Json → Build Nat} (inside : i < r.graph.size)
    (each : ∀ {j s}, r.Tells s → Along Run.Tells (element i j) s) :
    Along Run.Tells (settle element p i schema) r := by
  have filled : ∀ {k : Kind} {s : Run}, r.Tells s →
      Along Run.Tells (fillArray element i schema k) s := by
    intro k s tells
    unfold fillArray
    split
    · split
      · exact (each tells).discard
      · exact (attachPlaceholder_tells (inside.trans_le tells.size_le)).discard
    · exact .pure _
  unfold settle
  refine along_node.bind fun got _ => along_node.bind fun got' _ => ?_
  obtain ⟨rfl, rfl⟩ := ends_node.mp got
  obtain ⟨rfl, rfl⟩ := ends_node.mp got'
  dsimp only
  split
  · exact filled (refl_of _ _)
  · exact (modify_tells rfl rfl).bind fun _ tells => filled tells
  · exact filled (refl_of _ _)

theorem fromSchemaWithin_tells {depth : Nat} :
    Along Run.Tells (fromSchemaWithin depth p schema) r := by
  induction depth generalizing p schema r with
  | zero => exact .throw _
  | succ depth ih =>
    refine along_node.bind fun _ _ => ?_
    dsimp only
    split
    · exact attachChecked_tells
    · split
      · exact along_pathOf.bind fun _ _ => .throw _
      · refine attachChecked_tells.bind fun attached _ => ?_
        obtain ⟨rfl, graph, -⟩ := ends_attachChecked attached
        have inside := graph ▸ Graph.lt_size_attach
        exact (settle_tells inside fun _ => ih).bind fun _ _ => .pure _

/-- Building a schema tells where its warnings are. -/
theorem fromSchema_tells : Along Run.Tells (fromSchema p schema) r := fromSchemaWithin_tells

/-! ## What closes a cycle -/

/-- A leaf that closes a cycle is attached below the node, with a warning at the path of the
node. -/
structure Closes (p ancestor : Nat) (r s : Run) : Prop where
  graph : ∃ y : Seed, y.kind = .circular ancestor ∧ s.graph = r.graph.attach p y
  warnings : ∃ message,
    s.warnings = r.warnings ++ [⟨r.graph.pathOf p, .circularReference, message⟩]

variable {a ancestor : Nat}

/-- A checked seed that turned circular closes a cycle. -/
theorem attachChecked_closes (h : Ends (attachChecked p x) r i s) (inside : p < r.graph.size)
    (plain : ∀ ancestor, x.kind ≠ .circular ancestor)
    (circular : (s.graph.node i).kind = .circular ancestor) : Closes p ancestor r s := by
  have kind := circular
  rw [node_attachChecked h inside] at kind
  have graph := (ends_attachChecked h).2.1
  refine ⟨⟨_, kind, graph⟩, ?_⟩
  change (r.graph.checked p x).kind = _ at kind
  unfold Graph.checked at kind
  unfold attachChecked at h
  simp only [Ends.bind_iff, ends_graph] at h
  obtain ⟨_, _, ⟨rfl, rfl⟩, h⟩ := h
  cases hit : r.graph.lineageHit? p x.id with
  | some ancestor =>
    simp only [hit, Ends.bind_iff, ends_warn, ends_attach] at h
    obtain ⟨_, _, rfl, -, rfl⟩ := h
    exact ⟨_, rfl⟩
  | none =>
    rw [hit] at kind
    exact absurd kind (plain ancestor)

/-- Nothing is done below a leaf that closes a cycle. -/
theorem settle_of_circular {element : Nat → Json → Build Nat} {v : Unit}
    (h : Ends (settle element p i schema) r v s)
    (circular : (r.graph.node i).kind = .circular ancestor) : r = s := by
  unfold settle at h
  simp only [Ends.bind_iff, ends_node] at h
  obtain ⟨_, _, ⟨rfl, rfl⟩, _, _, ⟨rfl, rfl⟩, h⟩ := h
  simp only [circular] at h
  split at h
  · exact (Ends.pure_iff.mp h).2
  · next other => exact (other ancestor rfl).elim
  · exact (Ends.pure_iff.mp h).2

/-- No shape makes a circular reference. -/
theorem kind_ne_circular {shape : Shape} {kind : Kind} (made : kindOfShape? shape = some kind) :
    kind ≠ .circular ancestor := by
  rintro rfl
  cases shape <;> cases made

/-- Where a fragment is made into a leaf that closes a cycle, nothing else is made. -/
theorem fromSchema_closes (h : Ends (fromSchema p schema) r i s) (inside : p < r.graph.size)
    (circular : (s.graph.node i).kind = .circular ancestor) : Closes p ancestor r s := by
  obtain ⟨depth, size⟩ : ∃ depth, schema.size = depth + 1 :=
    Nat.exists_eq_add_one.mpr schema.size_pos
  rw [fromSchema, size, fromSchemaWithin] at h
  simp only [Ends.bind_iff, ends_node] at h
  obtain ⟨_, _, ⟨rfl, rfl⟩, h⟩ := h
  split at h
  · exact attachChecked_closes h inside (fun _ => Kind.noConfusion) circular
  · split at h
    · exact absurd h (by simp only [Ends.bind_iff, Ends.throw_iff, and_false, exists_false,
        not_false_eq_true])
    · next kind made =>
      simp only [Ends.bind_iff, Ends.pure_iff] at h
      obtain ⟨c, v, attached, _, t, settled, rfl, rfl⟩ := h
      obtain ⟨rfl, graph, -⟩ := ends_attachChecked attached
      have within : r.graph.size < v.graph.size := graph ▸ Graph.lt_size_attach
      have tells := (settle_tells within fun _ => fromSchemaWithin_tells).ends settled
      have before := (tells.grows.kind within).symm.trans circular
      obtain rfl := settle_of_circular settled before
      exact attachChecked_closes attached inside (fun _ => kind_ne_circular made) circular

/-! ## Properties -/

theorem circularElement_tells (inside : p < r.graph.size) :
    Along Run.Tells (circularElement p name schema ancestor) r := by
  refine along_graph.bind fun got _ => ?_
  obtain ⟨rfl, rfl⟩ := ends_graph.mp got
  exact (warn_tells inside).bind fun _ _ => attach_tells.bind fun _ _ =>
    attach_tells.discard.bind fun _ _ => .pure _

theorem placeholderElement_tells (inside : p < r.graph.size) :
    Along Run.Tells (placeholderElement p name) r :=
  (warnMissingItems_tells inside).bind fun _ _ => along_node.bind fun _ _ => attach_tells.discard

/-- A property that is attached and turned has its warning at the path that it had in between. -/
theorem tells_of_turned {shape : PropShape} (inside : o < r.graph.size)
    (graph : u.graph = r.graph.attach o x) (warnings : u.warnings = r.warnings)
    (kind : x.kind = .property shape required) (wraps : shape.isWrapper = true)
    (other : shape ≠ .circular) (closes : Closes r.graph.size ancestor u s) :
    r.Tells (s.onGraph fun g => g.modify r.graph.size (turned required)) := by
  obtain ⟨⟨y, leaf, graph'⟩, message, added⟩ := closes
  let n := r.graph.size
  have within : n < u.graph.size := graph ▸ Graph.lt_size_attach
  have here : (u.graph.node n).kind = .property shape required := by
    rw [graph, Graph.kind_attach_size inside, kind]
  have attached : u.graph.Grows {n} s.graph := graph' ▸ .attach
  have turns : s.graph.Extends (s.graph.modify n (turned required)) := .modify
    { Node.Keeps.refl _ with
      kind := .inr ⟨shape, required, (attached.kind within).trans here, wraps, rfl⟩ }
  have later := attached.toExtends.trans turns
  have spared : ∀ j ≠ n, (s.graph.modify n (turned required)).node j = s.graph.node j := fun _ =>
    Graph.node_modify_of_ne
  have first : r.graph.Grows {o} u.graph := graph ▸ .attach
  have grows : r.graph.Grows Set.univ (s.graph.modify n (turned required)) :=
    { first.toExtends.trans later with
      kind := fun {j} old => by
        rw [spared j (Nat.ne_of_lt old), attached.kind (old.trans within), first.kind old]
      children := fun _ idle => absurd trivial idle
      props := fun _ idle => absurd trivial idle }
  refine ⟨grows, fun w mem => ?_⟩
  change w ∈ s.warnings at mem
  rw [added, warnings] at mem
  refine (List.mem_append.mp mem).imp_right fun new => ?_
  rw [List.mem_singleton.mp new]
  have path := later.pathWith within (fun a above => by
    rw [grows.idAt above, first.idAt above]) (u.graph.idAt n)
  have self : (s.graph.modify n (turned required)).node n = turned required (s.graph.node n) :=
    Graph.node_modify_self (within.trans_le attached.size_le)
  refine .inr ⟨rfl, ?_⟩
  rw [← Graph.pathWith_idAt, ← path, Graph.idAt, Node.id, here, ← (later.keeps within).discriminant]
  have child : u.graph.size ∈ ((s.graph.modify n (turned required)).node n).children := by
    rw [self, turned, graph', Graph.children_attach within, if_pos rfl]
    exact List.mem_append_right _ (List.mem_singleton_self _)
  have closes : ((s.graph.modify n (turned required)).node u.graph.size).kind =
      .circular ancestor := by
    rw [spared _ (Nat.ne_of_gt within), graph', Graph.kind_attach_size within, leaf]
  exact .turned (self ▸ rfl) child closes wraps other

/-- A property that is attached gets what it wraps. -/
theorem wrapSchema_tells {shape : PropShape} (inside : o < r.graph.size)
    (graph : u.graph = r.graph.attach o x) (warnings : u.warnings = r.warnings)
    (kind : x.kind = .property shape required) (wraps : shape.isWrapper = true)
    (other : shape ≠ .circular) (first : r.Tells u) :
    Along (fun _ s => r.Tells s) (wrapSchema r.graph.size schema required) u := by
  have within : r.graph.size < u.graph.size := graph ▸ Graph.lt_size_attach
  rw [wrapSchema, Along, Ends.run_bind]
  have made : Along Run.Tells (fromSchema r.graph.size schema) u := fromSchema_tells
  rcases run : (fromSchema r.graph.size schema).run u with ⟨e | child, s⟩
  · exact trans_of _ first (made.fails run)
  · have ends : Ends (fromSchema r.graph.size schema) u child s := run
    have tells : r.Tells s := trans_of _ first (made.ends ends)
    dsimp only
    rw [Ends.run_bind_of_ends (ends_node.mpr ⟨rfl, rfl⟩)]
    split
    · next ancestor circular =>
      exact tells_of_turned inside graph warnings kind wraps other
        (fromSchema_closes ends within circular)
    · exact tells

theorem propWithin_tells {depth : Nat} {followed : List (String × Nat)}
    (inside : o < r.graph.size) :
    Along Run.Tells (propWithin d depth o name schema required followed) r := by
  induction depth generalizing o name schema required followed r with
  | zero => exact .throw _
  | succ depth ih =>
    rw [propWithin]
    split
    · exact circularElement_tells inside
    · refine along_node.bind fun got _ => along_decisive.bind fun decided _ => ?_
      obtain ⟨rfl, rfl⟩ := ends_node.mp got
      obtain ⟨-, rfl⟩ := ends_decisive decided
      dsimp only
      rw [Along, Ends.run_bind_of_ends (ends_attach.mpr ⟨rfl, rfl⟩)]
      -- what the property wraps may still turn it, so the two are taken together
      have then_ : ∀ {m : Build Unit} {u}, Along (fun _ s => r.Tells s) m u →
          r.Tells ((do m; return r.graph.size : Build Nat).run u).2 := fun {m u} along => by
        rw [Along] at along
        rw [Ends.run_bind]
        rcases run : m.run u with ⟨_ | _, _⟩ <;> rw [run] at along <;> exact along
      have builds : ∀ {m : Build Unit} {u}, r.Tells u → Along Run.Tells m u →
          r.Tells ((do m; return r.graph.size : Build Nat).run u).2 := fun before along =>
        then_ (trans_of Run.Tells before along)
      split
      · exact .attach
      · exact .attach
      · split
        · exact builds .attach (ih Graph.lt_size_attach).discard
        · exact builds .attach (placeholderElement_tells Graph.lt_size_attach)
      all_goals
        next same =>
        exact then_ (wrapSchema_tells inside rfl rfl (congrArg (Kind.property · required) same) rfl
          PropShape.noConfusion .attach)

/-- Building a property tells where its warnings are. -/
theorem fromProp_tells (inside : o < r.graph.size) :
    Along Run.Tells (fromProp d o name schema required) r :=
  Along.get.bind fun got _ => by
    obtain ⟨rfl, rfl⟩ := Ends.get_iff.mp got
    exact propWithin_tells inside

/-! ## Visits -/

theorem visitObject_tells (inside : i < r.graph.size) : Along Run.Tells (visitObject d i) r :=
  along_node.bind fun _ first => .forM fun _ later =>
    have before : r.Tells _ := trans_of _ first later
    (fromProp_tells (inside.trans_le before.size_le)).bind fun _ _ =>
      .modify (.modify { Node.Keeps.refl _ with } rfl)

section Kinds

variable {visitChild : Nat → Build Unit}
  (visits : ∀ {i r}, Along Run.Tells (visitChild i) r)

include visits

theorem attachPart_tells : Along Run.Tells (do visitChild (← attach p x)) r :=
  attach_tells.bind fun _ _ => visits

theorem visitParameter_tells {operation : String} {param : Json} :
    Along Run.Tells (visitParameter visitChild i operation param) r := by
  unfold visitParameter
  dsimp only
  split
  · exact .pure _
  · exact attachPart_tells visits

theorem visitRequest_tells {operation path : String} {raw : Json} :
    Along Run.Tells (visitRequest d visitChild i operation path raw) r := by
  refine along_deref.bind fun _ _ => ?_
  split
  · exact .pure _
  · exact attachPart_tells visits

theorem visitResponse_tells {operation : String} {responses : Json} (inside : i < r.graph.size) :
    Along Run.Tells (visitResponse d visitChild i operation (r.graph.pathOf i) responses) r := by
  refine along_chosenResponse.bind fun {chosen u} _ tells => ?_
  have before : r.Tells u := tells
  rw [← before.grows.pathOf inside]
  cases chosen with
  | some x => exact attachPart_tells visits
  | none =>
    exact (warn_tells (inside.trans_le before.size_le)).bind fun _ _ => attachPart_tells visits

theorem enterSchema_tells : Along Run.Tells (enterSchema visitChild i schema) r :=
  fromSchema_tells.bind fun _ _ => visits

theorem visitOperation_tells {method : Method} {shared : List Json} (inside : i < r.graph.size) :
    Along Run.Tells (visitOperation d visitChild i method shared) r := by
  have answered : ∀ {operation responses u}, r.Tells u →
      Along Run.Tells (visitResponse d visitChild i operation (r.graph.pathOf i) responses) u :=
    fun tells => by
      rw [← tells.grows.pathOf inside]
      exact visitResponse_tells visits (inside.trans_le tells.size_le)
  refine along_node.bind fun got _ => along_pathOf.bind fun got' _ => ?_
  obtain ⟨-, rfl⟩ := ends_node.mp got
  obtain ⟨rfl, rfl⟩ := ends_pathOf.mp got'
  refine along_mergeParameters.bind fun _ first => ?_
  refine Along.bind (.forM fun _ _ => visitParameter_tells visits) fun _ second => ?_
  have before : r.Tells _ := trans_of _ first second
  split
  · split
    · exact (visitRequest_tells visits).bind fun _ tells => answered (trans_of _ before tells)
    · exact answered before
  · exact answered before

theorem visitKind_tells {kind : Kind} (inside : i < r.graph.size) :
    Along Run.Tells (visitKind d visitChild i kind) r := by
  have branches : ∀ {keys}, Along Run.Tells (visitBranches visitChild i keys) r :=
    along_node.bind fun _ _ => .forM fun _ _ => enterSchema_tells visits
  have children : Along Run.Tells (visitChildren visitChild i) r :=
    along_node.bind fun _ _ => .forM fun _ _ => visits
  have payload : Along Run.Tells (visitPayload visitChild i) r :=
    along_node.bind fun _ _ => enterSchema_tells visits
  cases kind with
  | operation => exact visitOperation_tells visits inside
  | param => exact along_node.bind fun _ _ => enterSchema_tells visits
  | body | response => exact payload
  | reference =>
    exact along_pathOf.bind fun _ _ => Along.bind (.liftExcept _) fun _ _ =>
      enterSchema_tells visits
  | object => exact visitObject_tells inside
  | composed | union => exact branches
  | array | property => exact children
  | scalar | enum | circular => exact .pure _

end Kinds

theorem visitWithin_tells {depth : Nat} : Along Run.Tells (visitWithin d depth i) r := by
  induction depth generalizing i r with
  | zero => exact .throw _
  | succ depth ih =>
    refine along_node.bind fun got _ => ?_
    obtain ⟨rfl, rfl⟩ := ends_node.mp got
    split
    · exact .pure _
    · next idle =>
      have inside := Graph.lt_size_of_not_visited (Bool.eq_false_iff.mpr idle)
      have mark : Along Run.Tells (modifyNode i fun n => { n with visited := true }) r :=
        .modify (.modify { Node.Keeps.refl _ with visited := fun _ => rfl } rfl)
      refine mark.bind fun _ tells => along_framed (visitKind_tells ih ?_) fun tells => ?_
      · exact inside.trans_le tells.size_le
      · exact ⟨tells.grows, tells.warnings⟩

/-- **A visit tells where its warnings are, also where it fails.** -/
theorem visit_tells : Along Run.Tells (visit d i) r :=
  Along.get.bind fun _ _ => visitWithin_tells

/-! ## Grafts -/

theorem graftSchema_tells : Along Run.Tells (graftSchema p schema) r :=
  (modify_tells rfl rfl).bind fun _ _ => fromSchema_tells

theorem graftProp_tells (inside : o < r.graph.size) :
    Along Run.Tells (graftProp d o name schema required) r :=
  (modify_tells rfl rfl).bind fun _ tells => fromProp_tells (inside.trans_le tells.size_le)

end Build

end RestGraph
