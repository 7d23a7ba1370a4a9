import RestGraph.Proofs.Graph.Bounds
import RestGraph.Proofs.Graph.Ids

/-!
# Proceeding within bounds

Whatever its outcome and wherever it starts, a step extends the graph and stays within bounds.
-/

namespace RestGraph

variable {d : Document} {ptrs : List String} {bound : Nat} {since : Option Nat} {r s t : Run}
  {p i : Nat} {schema : Json}

/-- A stretch of a run whatever its outcome. -/
structure Run.Proceeds (d : Document) (ptrs : List String) (bound : Nat) (since : Option Nat)
    (r s : Run) : Prop where
  grown : r.graph.Extends s.graph
  bounded : r.Bounded d ptrs bound since → s.Bounded d ptrs bound since

namespace Run.Proceeds

instance : IsPreorder Run (Proceeds d ptrs bound since) where
  refl r := ⟨.refl r.graph, id⟩
  trans _ _ _ first second := ⟨first.grown.trans second.grown, second.bounded ∘ first.bounded⟩

/-- The bounds speak of the graph and of the extent only. -/
theorem of_same (graph : s.graph = r.graph) (extent : s.extent = r.extent) :
    Proceeds d ptrs bound since r s :=
  ⟨graph ▸ .refl _, fun bounded => bounded.of_same graph extent⟩

theorem enter {tag : Tag} : Proceeds d ptrs bound since r (r.enter i tag) := .of_same rfl rfl

/-- Only properties turn. -/
theorem kind (next : Proceeds d ptrs bound since r s) (inside : i < r.graph.size)
    (plain : (r.graph.node i).isProperty = false) :
    (s.graph.node i).kind = (r.graph.node i).kind :=
  (next.grown.keeps inside).kind.eq_of_not_isProperty plain

/-- What a late node is to make suits the graph that its visit has reached. -/
theorem suits {place : Nat} (next : Proceeds d ptrs bound since r s)
    (bounded : r.Bounded d ptrs bound since) (inside : i < r.graph.size)
    (late : (r.graph.node i).kind.isEager = false)
    (here : d.fragmentAt? (r.graph.node i) place = some schema) :
    s.graph.Suits ptrs bound since i schema := by
  have keeps := next.grown.keeps inside
  exact (next.bounded bounded).suits_of_fragmentAt? (inside.trans_le next.grown.size_le)
    (keeps.kind.isEager.trans late) ((keeps.fragmentAt? d place).trans here)

end Run.Proceeds

namespace Build

/-- What a step does to registries and warnings is no matter. -/
theorem registry_proceeds {f : Run → Run} (graph : (f r).graph = r.graph)
    (extent : (f r).extent = r.extent) :
    Along (Run.Proceeds d ptrs bound since) (modify f : Build Unit) r :=
  .modify (.of_same graph extent)

theorem warn_proceeds {location message : String} {kind : WarningKind} :
    Along (Run.Proceeds d ptrs bound since) (warn location kind message) r :=
  registry_proceeds rfl rfl

theorem attach_proceeds {seed : Seed} (takes : r.graph.Takes ptrs bound since p seed) :
    Along (Run.Proceeds d ptrs bound since) (attach p seed) r :=
  Along.get.bind fun h _ => by
    obtain ⟨rfl, rfl⟩ := Ends.get_iff.mp h
    exact (Along.modify ⟨.attach, fun bounded => bounded.attach takes⟩).bind fun _ _ => .pure _

theorem modifyNode_proceeds {f : Node → Node} (keep : ∀ n : Node, n.Keeps (f n))
    (children : ∀ n, (f n).children = n.children) (kind : ∀ n, (f n).kind = n.kind) :
    Along (Run.Proceeds d ptrs bound since) (modifyNode i f) r :=
  .modify ⟨.modify (keep _), fun bounded => bounded.modify (keep _) (children _) fun _ => kind _⟩

/-! ## Nodes from fragments -/

theorem attachChecked_proceeds {seed : Seed} (suits : r.graph.Suits ptrs bound since p schema)
    (made : (r.graph.node p).seedBelow? schema = some seed) :
    Along (Run.Proceeds d ptrs bound since) (attachChecked p seed) r := by
  obtain ⟨from_, -, kinds⟩ := Node.seedBelow?_spec made
  have isSchema := Node.seedBelow?_isSchema made
  have none : ∀ {c : Kind}, c.isSchema = true → c.shared = [] ∧ c.isProperty = false :=
    fun {c} schema => by cases c <;> first | exact ⟨rfl, rfl⟩ | cases schema
  have positive := schema.size_pos
  unfold attachChecked
  refine along_graph.bind fun h _ => ?_
  obtain ⟨rfl, rfl⟩ := ends_graph.mp h
  split
  · next ancestor hit =>
    refine warn_proceeds.bind fun h _ => ?_
    obtain rfl := ends_warn.mp h
    exact attach_proceeds
      { inside := suits.inside
        fits := from_ ▸ suits.fits
        shared := rfl
        shaped := fun composition => by cases composition
        owned := fun _ _ prop => by cases prop
        early := suits.early
        less := fun k new le plain _ =>
          Graph.need_sprout_lt (Nat.lt_of_le_of_lt (Nat.zero_le _) (suits.light k new le plain)) }
  · next miss =>
    have takes : r.graph.Takes ptrs bound since p seed :=
      { inside := suits.inside
        fits := from_ ▸ suits.fits
        shared := (none isSchema).1
        shaped := fun composition => by
          rcases kinds with ⟨_, -, kind, -⟩ | ⟨kind, -⟩
          · rw [kind] at composition
            cases composition
          · rw [from_, kind]
        owned := fun _ _ prop => by
          rw [(none isSchema).2] at prop
          cases prop
        early := suits.early
        less := fun k new le plain _ => by
          rcases kinds with ⟨pointer, shape, kind, disc⟩ | ⟨kind, -⟩
          · refine Graph.need_reference_lt kind disc ?_ miss
            exact suits.fits.pointers (Json.ref?_mem_pointers (Shape.ref?_of_reference shape))
          · refine Graph.need_sprout_lt (Nat.lt_of_le_of_lt ?_ (suits.light k new le plain))
            rw [from_]
            exact Kind.weight_of_shape kind }
    split
    · refine (registry_proceeds rfl rfl).bind fun h _ => ?_
      obtain rfl := Ends.modify_iff.mp h
      exact attach_proceeds takes
    · exact attach_proceeds takes

theorem warnMissingItems_proceeds :
    Along (Run.Proceeds d ptrs bound since) (warnMissingItems i) r :=
  along_pathOf.bind fun _ _ => warn_proceeds

/-- A warning leaves the graph. -/
theorem graph_of_warnMissingItems {u : Unit} (h : Ends (warnMissingItems i) r u s) :
    s.graph = r.graph := by
  unfold warnMissingItems at h
  simp only [Ends.bind_iff, ends_pathOf, ends_warn] at h
  obtain ⟨_, _, ⟨rfl, rfl⟩, rfl⟩ := h
  rfl

/-- The empty object fits. -/
theorem fits_empty (ptrs : List String) (large : r.extent + syntheticSchema.size = bound) :
    (Json.object []).Fits ptrs bound :=
  ⟨by rw [← large]; exact Nat.le_add_left_of_le (by decide), rfl⟩

theorem attachPlaceholder_proceeds (bounded : r.Bounded d ptrs bound since)
    (inside : i < r.graph.size)
    (old : ∀ k ∈ since, k ≤ i) (array : (r.graph.node i).kind = .array) :
    Along (Run.Proceeds d ptrs bound since) (attachPlaceholder i) r := by
  unfold attachPlaceholder
  refine warnMissingItems_proceeds.bind fun h _ => along_node.bind fun h' _ => ?_
  have graph := graph_of_warnMissingItems h
  obtain ⟨rfl, rfl⟩ := ends_node.mp h'
  refine attach_proceeds
    { inside := graph ▸ inside
      fits := fits_empty ptrs bounded.room
      shared := rfl
      shaped := fun composition => by cases composition
      owned := fun _ _ prop => by cases prop
      early := fun k new _ => old k new
      less := fun _ _ _ _ _ => Graph.need_sprout_lt ?_ }
  rw [graph, array]
  exact Nat.mul_pos Nat.two_pos (Json.size_pos _)

theorem settle_proceeds {element : Nat → Json → Build Nat} (bounded : r.Bounded d ptrs bound since)
    (inside : i < r.graph.size) (old : ∀ k ∈ since, k ≤ i) (same : (r.graph.node i).schema = schema)
    (ih : ∀ {s items}, s.Bounded d ptrs bound since → s.graph.Suits ptrs bound since i items →
      Along (Run.Proceeds d ptrs bound since) (element i items) s) :
    Along (Run.Proceeds d ptrs bound since) (settle element p i schema) r := by
  have fills : ∀ {s : Run}, s.graph = r.graph → s.Bounded d ptrs bound since →
      Along (Run.Proceeds d ptrs bound since)
        (fillArray element i schema (r.graph.node i).kind) s := by
    intro s graph bounded
    unfold fillArray
    split
    · next array =>
      rw [← graph] at inside same array
      split
      · next items here =>
        refine (ih bounded ⟨inside, ?_, fun k new _ => old k new, fun _ _ _ _ => ?_⟩).discard
        · exact (same ▸ bounded.fits i).inside (within_of_itemsOf? here)
        · rw [array, same]
          exact Nat.mul_lt_mul_of_pos_left (size_lt_of_itemsOf? here) Nat.two_pos
      · exact (attachPlaceholder_proceeds bounded inside old array).discard
    · exact .pure _
  unfold settle
  refine along_node.bind fun h _ => along_node.bind fun h' _ => ?_
  obtain ⟨rfl, rfl⟩ := ends_node.mp h
  obtain ⟨rfl, rfl⟩ := ends_node.mp h'
  dsimp only
  split
  · exact fills rfl bounded
  · refine (registry_proceeds rfl rfl).bind fun h next => ?_
    obtain rfl := Ends.modify_iff.mp h
    exact fills rfl (next.bounded bounded)
  · exact fills rfl bounded

theorem fromSchemaWithin_proceeds {depth : Nat} (bounded : r.Bounded d ptrs bound since)
    (suits : r.graph.Suits ptrs bound since p schema) :
    Along (Run.Proceeds d ptrs bound since) (fromSchemaWithin depth p schema) r := by
  induction depth generalizing p schema r with
  | zero => exact .throw _
  | succ depth ih =>
    rw [fromSchemaWithin]
    refine along_node.bind fun h _ => ?_
    obtain ⟨rfl, rfl⟩ := ends_node.mp h
    split
    · next pointer shape =>
      exact attachChecked_proceeds suits (by rw [Node.seedBelow?, shape])
    · next shape notRef =>
      split
      · exact along_pathOf.bind fun _ _ => .throw _
      · next kind made =>
        have seed := Node.seedBelow?_of_kind (n := r.graph.node p) notRef made
        refine (attachChecked_proceeds suits seed).bind fun {i s} h next => ?_
        have new := node_attachChecked h suits.inside
        obtain ⟨handle, graph, -⟩ := ends_attachChecked h
        refine (settle_proceeds (next.bounded bounded) ?_ ?_ ?_ ih).bind fun _ _ => .pure _
        · rw [graph, Graph.size_attach, handle]
          exact Nat.lt_succ_self _
        · exact fun k new => handle ▸ bounded.began k new
        · rw [new]
          exact Graph.checked_schema

/-- A schema that suits is built within the bounds. -/
theorem fromSchema_proceeds (bounded : r.Bounded d ptrs bound since)
    (suits : r.graph.Suits ptrs bound since p schema) :
    Along (Run.Proceeds d ptrs bound since) (fromSchema p schema) r :=
  fromSchemaWithin_proceeds bounded suits

/-! ## Properties -/

/-- What an owner takes as a property. -/
theorem takes_of_isProperty {g : Graph} {seed : Seed} (prop : seed.kind.isProperty = true)
    (inside : p < g.size) (fits : seed.schema.Fits ptrs bound)
    (owner : ∀ k ∈ since, (g.node p).kind.isOwner = true)
    (early : ∀ k ∈ since, (g.node p).kind.isEager = true → k ≤ p) :
    g.Takes ptrs bound since p seed := by
  obtain ⟨shape, required, kind⟩ := Kind.eq_property_of_isProperty prop
  exact
    { inside, fits, early
      shared := by rw [kind]; rfl
      shaped := fun composition => by
        rw [kind] at composition
        cases composition
      owned := fun k new _ => owner k new
      less := fun _ _ _ _ plain => by
        rw [prop] at plain
        cases plain }

theorem circularElement_proceeds {name : String} {ancestor : Nat}
    (bounded : r.Bounded d ptrs bound since) (inside : p < r.graph.size)
    (owner : ∀ k ∈ since, (r.graph.node p).kind.isOwner = true)
    (early : ∀ k ∈ since, (r.graph.node p).kind.isEager = true → k ≤ p)
    (fits : schema.Fits ptrs bound) :
    Along (Run.Proceeds d ptrs bound since) (circularElement p name schema ancestor) r := by
  unfold circularElement
  refine along_graph.bind fun h _ => warn_proceeds.bind fun h' _ => ?_
  obtain ⟨rfl, rfl⟩ := ends_graph.mp h
  obtain rfl := ends_warn.mp h'
  refine Along.bind (attach_proceeds (takes_of_isProperty rfl inside fits owner early))
    fun {prop s} h next => ?_
  obtain ⟨rfl, rfl⟩ := ends_attach.mp h
  refine Along.bind (Along.discard (attach_proceeds
    { inside := Graph.lt_size_attach
      fits := fits
      shared := rfl
      shaped := fun composition => by cases composition
      owned := fun _ _ prop => by cases prop
      early := fun k new _ => bounded.began k new
      less := fun _ _ _ plain => ?_ })) fun _ _ => .pure _
  exact absurd ((congrArg Kind.isProperty (Graph.kind_attach_size inside)).symm.trans plain)
    Bool.noConfusion

theorem placeholderElement_proceeds {name : String} (bounded : r.Bounded d ptrs bound since)
    (inside : p < r.graph.size) (old : ∀ k ∈ since, k ≤ p)
    (owner : ∀ k ∈ since, (r.graph.node p).kind.isOwner = true) :
    Along (Run.Proceeds d ptrs bound since) (placeholderElement p name) r := by
  unfold placeholderElement
  refine warnMissingItems_proceeds.bind fun h _ => along_node.bind fun h' _ => ?_
  have graph := graph_of_warnMissingItems h
  obtain ⟨rfl, rfl⟩ := ends_node.mp h'
  exact Along.discard (attach_proceeds (takes_of_isProperty rfl (graph ▸ inside)
    (fits_empty ptrs bounded.room) (graph ▸ owner) fun k new _ => old k new))

theorem wrapSchema_proceeds {shape : PropShape} {required : Bool}
    (bounded : r.Bounded d ptrs bound since) (inside : p < r.graph.size) (old : ∀ k ∈ since, k ≤ p)
    (fits : schema.Fits ptrs bound) (kind : (r.graph.node p).kind = .property shape required)
    (wraps : shape.isWrapper = true) :
    Along (Run.Proceeds d ptrs bound since) (wrapSchema p schema required) r := by
  unfold wrapSchema
  have suits : r.graph.Suits ptrs bound since p schema :=
    ⟨inside, fits, fun k new _ => old k new, fun _ _ _ plain => by
    rw [Node.isProperty, kind] at plain
    cases plain⟩
  refine (fromSchema_proceeds bounded suits).bind fun {child s} _ next =>
    along_node.bind fun h _ => ?_
  obtain ⟨rfl, rfl⟩ := ends_node.mp h
  have stays : ∃ shape, (s.graph.node p).kind = .property shape required ∧
      shape.isWrapper = true := by
    have turns := (next.grown.keeps inside).kind
    rw [kind] at turns
    rcases turns with same | ⟨_, _, same, -, turned⟩
    · exact ⟨shape, same, wraps⟩
    · cases same
      exact ⟨.circular, turned, rfl⟩
  obtain ⟨shape, kind, wraps⟩ := stays
  have keep : (s.graph.node p).Keeps { s.graph.node p with kind := .property .circular required } :=
    { Node.Keeps.refl _ with kind := .inr ⟨shape, required, kind, wraps, rfl⟩ }
  split
  · refine .modify ⟨.modify keep, fun bounded => bounded.modify keep rfl fun composition => ?_⟩
    rw [kind] at composition
    cases composition
  · exact .pure _

theorem propWithin_proceeds {depth : Nat} {name : String} {required : Bool}
    {followed : List (String × Nat)} (bounded : r.Bounded d ptrs bound since)
    (inside : p < r.graph.size) (owner : ∀ k ∈ since, (r.graph.node p).kind.isOwner = true)
    (early : ∀ k ∈ since, (r.graph.node p).kind.isEager = true → k ≤ p)
    (fits : schema.Fits ptrs bound) :
    Along (Run.Proceeds d ptrs bound since)
      (propWithin d depth p name schema required followed) r := by
  induction depth generalizing p name schema required followed r with
  | zero => exact .throw _
  | succ depth ih =>
    rw [propWithin]
    split
    · exact circularElement_proceeds bounded inside owner early fits
    · refine along_node.bind fun h _ => along_decisive.bind fun {fragment _} decided _ => ?_
      obtain ⟨rfl, rfl⟩ := ends_node.mp h
      obtain ⟨decides, rfl⟩ := ends_decisive decided
      have fits' := bounded.of_decides decides fits
      refine (attach_proceeds (takes_of_isProperty rfl inside fits' owner early)).bind
        fun {prop t} attached next => ?_
      have made : prop < t.graph.size ∧ (∀ k ∈ since, k ≤ prop) ∧
          (t.graph.node prop).kind = .property (propShapeOf (Shape.ofSchema fragment))
            required := by
        obtain ⟨rfl, rfl⟩ := ends_attach.mp attached
        exact ⟨Graph.lt_size_attach, bounded.began, Graph.kind_attach_size inside⟩
      obtain ⟨inside', old, kind⟩ := made
      have bounded' := next.bounded bounded
      split
      · exact (Along.pure ()).bind fun _ _ => .pure _
      · exact (Along.pure ()).bind fun _ _ => .pure _
      · next array =>
        have owner' : ∀ k ∈ since, (t.graph.node prop).kind.isOwner = true := fun _ _ => by
          rw [kind, array]
          rfl
        split
        · next items found =>
          exact (ih bounded' inside' owner' (fun k new _ => old k new)
            (fits'.inside (within_of_itemsOf? found))).discard.bind fun _ _ => .pure _
        · exact (placeholderElement_proceeds bounded' inside' old owner').bind fun _ _ => .pure _
      all_goals
        next shape =>
        refine (wrapSchema_proceeds bounded' inside' old fits kind ?_).bind fun _ _ => .pure _
        rw [shape]
        rfl

/-- A property is built within the bounds. -/
theorem fromProp_proceeds {name : String} {required : Bool} (bounded : r.Bounded d ptrs bound since)
    (inside : p < r.graph.size) (owner : ∀ k ∈ since, (r.graph.node p).kind.isOwner = true)
    (early : ∀ k ∈ since, (r.graph.node p).kind.isEager = true → k ≤ p)
    (fits : schema.Fits ptrs bound) :
    Along (Run.Proceeds d ptrs bound since) (fromProp d p name schema required) r :=
  Along.get.bind fun h _ => by
    obtain ⟨rfl, rfl⟩ := Ends.get_iff.mp h
    exact propWithin_proceeds bounded inside owner early fits

/-! ## Visits -/

/-- A part of an operation needs less than the operation. -/
theorem takes_of_part {g : Graph} {part : Seed} (inside : i < g.size)
    (tag : (g.node i).kind.tag = .operation) (admits : (g.node i).kind.admits part.kind = true)
    (fits : part.schema.Fits ptrs bound) : g.Takes ptrs bound since i part := by
  have plain : part.kind.shared = [] ∧ part.kind.isComposition = false ∧
      part.kind.isProperty = false ∧ (g.node i).kind.isEager = false ∧
      part.kind.weight bound part.schema.size 0 <
        (g.node i).kind.weight bound (g.node i).schema.size 0 := by
    cases parent : (g.node i).kind <;> rw [parent] at tag admits <;> cases tag
    cases kind : part.kind <;> rw [kind] at admits <;>
      first | exact ⟨rfl, rfl, rfl, rfl, Nat.lt_succ_self _⟩ | cases admits
  obtain ⟨shared, composition, prop, eager, lighter⟩ := plain
  exact
    { inside, fits, shared
      shaped := fun is => by
        rw [composition] at is
        cases is
      owned := fun _ _ is => by
        rw [prop] at is
        cases is
      early := fun _ _ is => by
        rw [eager] at is
        cases is
      less := fun _ _ _ _ _ => Graph.need_sprout_lt lighter }

section Kinds

variable {visitChild : Nat → Build Unit}
  (comes : ∀ {c s}, s.Bounded d ptrs bound since → Along (Run.Proceeds d ptrs bound since)
    (visitChild c) s)

include comes

theorem attachPart_proceeds {part : Seed} (bounded : r.Bounded d ptrs bound since)
    (takes : r.graph.Takes ptrs bound since i part) :
    Along (Run.Proceeds d ptrs bound since) (attach i part >>= visitChild) r :=
  (attach_proceeds takes).bind fun _ next => comes (next.bounded bounded)

theorem visitParameter_proceeds {operation : String} {param : Json}
    (bounded : r.Bounded d ptrs bound since) (inside : i < r.graph.size)
    (tag : (r.graph.node i).kind.tag = .operation) (fits : param.Fits ptrs bound) :
    Along (Run.Proceeds d ptrs bound since) (visitParameter visitChild i operation param) r := by
  unfold visitParameter
  dsimp only
  split
  · exact .pure _
  · exact attachPart_proceeds comes bounded
      (takes_of_part inside tag (Kind.admits_part tag (.inl rfl)) fits)

theorem visitRequest_proceeds {operation path : String} {raw : Json}
    (bounded : r.Bounded d ptrs bound since) (inside : i < r.graph.size)
    (tag : (r.graph.node i).kind.tag = .operation) (fits : raw.Fits ptrs bound) :
    Along (Run.Proceeds d ptrs bound since) (visitRequest d visitChild i operation path raw) r := by
  refine along_deref.bind fun h _ => ?_
  obtain ⟨rfl, leads⟩ := ends_deref h
  split
  · exact .pure _
  · next schema found =>
    have inner := Media.within_of_schema? found
    refine attachPart_proceeds comes bounded
      (takes_of_part inside tag (Kind.admits_part tag (.inr (.inl rfl))) ?_)
    rcases leads with rfl | root
    · exact fits.inside inner
    · exact bounded.of_root (inner.trans root)

theorem visitResponse_proceeds {operation path : String} {responses : Json}
    (bounded : r.Bounded d ptrs bound since) (inside : i < r.graph.size)
    (tag : (r.graph.node i).kind.tag = .operation)
    (fits : ∀ {status j}, responses.get? status = some j → j.Fits ptrs bound) :
    Along (Run.Proceeds d ptrs bound since)
      (visitResponse d visitChild i operation path responses) r := by
  refine along_chosenResponse.bind fun {chosen s} h _ => ?_
  obtain ⟨rfl, found⟩ := ends_chosenResponse h
  have enters : ∀ {part : Seed} {s : Run}, part.kind.tag = .response →
      part.schema.Fits ptrs bound → s.graph = r.graph → s.extent = r.extent →
      Along (Run.Proceeds d ptrs bound since) (attach i part >>= visitChild) s :=
    fun response fits graph extent => by
      refine attachPart_proceeds comes (bounded.of_same graph extent) ?_
      rw [graph]
      exact takes_of_part inside tag (Kind.admits_part tag (.inr (.inr response))) fits
  cases chosen with
  | some x =>
    refine enters rfl ?_ rfl rfl
    rcases found x rfl with ⟨_, response, got, inner⟩ | root
    · exact (fits got).inside inner
    · exact bounded.of_root root
  | none =>
    refine warn_proceeds.bind fun h _ => ?_
    obtain rfl := ends_warn.mp h
    exact enters rfl (bounded.of_offers (i := i) .synthetic) rfl rfl

theorem visitOperation_proceeds {method : Method} {shared : List Json}
    (bounded : r.Bounded d ptrs bound since) (inside : i < r.graph.size)
    (tag : (r.graph.node i).kind.tag = .operation) (own : (r.graph.node i).kind.shared = shared) :
    Along (Run.Proceeds d ptrs bound since) (visitOperation d visitChild i method shared) r := by
  have later : ∀ {s : Run}, Run.Proceeds d ptrs bound since r s → s.Bounded d ptrs bound since ∧
      i < s.graph.size ∧ (s.graph.node i).kind.tag = .operation := fun next =>
    ⟨next.bounded bounded, inside.trans_le next.grown.size_le,
      (next.grown.keeps inside).kind.tag.trans tag⟩
  have offered : ∀ {j}, d.Offers (r.graph.node i) j → j.Fits ptrs bound := bounded.of_offers
  refine along_node.bind fun h _ => along_pathOf.bind fun h' _ =>
    along_mergeParameters.bind fun {params s} h'' _ => ?_
  obtain ⟨rfl, rfl⟩ := ends_node.mp h
  obtain ⟨rfl, rfl⟩ := ends_pathOf.mp h'
  obtain ⟨rfl, offers⟩ := ends_mergeParameters (n := r.graph.node i) h'' fun _ => .of_declared own
  refine (Along.forM fun {param t} mem next => ?_).bind fun {_ t} _ next => ?_
  · obtain ⟨bounded, inside, tag⟩ := later next
    exact visitParameter_proceeds comes bounded inside tag (offered (offers _ mem))
  have answers : ∀ {v : Run}, Run.Proceeds d ptrs bound since r v →
      Along (Run.Proceeds d ptrs bound since) (visitResponse d visitChild i (r.graph.node i).name
        (r.graph.pathOf i) (((r.graph.node i).schema.get? "responses").getD .null)) v := by
    intro v next
    obtain ⟨bounded, inside, tag⟩ := later next
    refine visitResponse_proceeds comes bounded inside tag fun got =>
      offered (.of_response got)
  split
  · next raw found =>
    split
    · obtain ⟨bounded, inside, tag⟩ := later next
      refine (visitRequest_proceeds comes bounded inside tag
        (offered (.of_schema (Json.within_of_get? found)))).bind fun _ more => ?_
      exact answers (trans_of _ next more)
    · exact answers next
  · exact answers next

theorem enterSchema_proceeds (bounded : r.Bounded d ptrs bound since)
    (suits : r.graph.Suits ptrs bound since i schema) :
    Along (Run.Proceeds d ptrs bound since) (enterSchema visitChild i schema) r :=
  (fromSchema_proceeds bounded suits).bind fun _ next => comes (next.bounded bounded)

theorem visitBranches_proceeds {keys : List String} (bounded : r.Bounded d ptrs bound since)
    (inside : i < r.graph.size) (late : (r.graph.node i).kind.isEager = false)
    (fragments : ∀ place, d.fragmentAt? (r.graph.node i) place =
      (branchesOf (r.graph.node i).schema keys)[place]?) :
    Along (Run.Proceeds d ptrs bound since) (visitBranches visitChild i keys) r := by
  refine along_node.bind fun h _ => ?_
  obtain ⟨rfl, rfl⟩ := ends_node.mp h
  refine Along.forM fun {schema t} mem next => ?_
  obtain ⟨place, here⟩ := List.mem_iff_getElem?.mp mem
  exact enterSchema_proceeds comes (next.bounded bounded)
    (next.suits bounded inside late ((fragments place).trans here))

end Kinds

/-- Make one property of an object. -/
theorem enterField_proceeds {name : String} {required synthetic : Bool}
    (bounded : r.Bounded d ptrs bound since) (inside : i < r.graph.size)
    (object : (r.graph.node i).kind = .object synthetic) (fits : schema.Fits ptrs bound) :
    Along (Run.Proceeds d ptrs bound since) (do
      let prop ← fromProp d i name schema required
      modifyNode i (Node.withField name prop)) r := by
  refine (fromProp_proceeds bounded inside ?_ ?_ fits).bind fun _ _ =>
    modifyNode_proceeds (fun _ => { Node.Keeps.refl _ with }) (fun _ => rfl) fun _ => rfl
  · exact fun _ _ => object ▸ rfl
  · rw [object]
    exact fun _ _ eager => absurd eager Bool.noConfusion

theorem visitObject_proceeds {synthetic : Bool} (bounded : r.Bounded d ptrs bound since)
    (inside : i < r.graph.size) (object : (r.graph.node i).kind = .object synthetic) :
    Along (Run.Proceeds d ptrs bound since) (visitObject d i) r := by
  refine along_node.bind fun h _ => ?_
  obtain ⟨rfl, rfl⟩ := ends_node.mp h
  refine Along.forM fun {x t} mem next => ?_
  exact enterField_proceeds (next.bounded bounded) (inside.trans_le next.grown.size_le)
    ((next.kind inside (by rw [Node.isProperty, object]; rfl)).trans object)
    ((bounded.fits i).inside (within_of_mem_sortedProperties mem))

theorem visitKind_proceeds {visitChild : Nat → Build Unit}
    (comes : ∀ {c s}, s.Bounded d ptrs bound since →
      Along (Run.Proceeds d ptrs bound since) (visitChild c) s)
    (bounded : r.Bounded d ptrs bound since) (inside : i < r.graph.size) :
    Along (Run.Proceeds d ptrs bound since) (visitKind d visitChild i (r.graph.node i).kind) r := by
  have single : ∀ {schema : Json}, (r.graph.node i).kind.isEager = false →
      d.fragmentAt? (r.graph.node i) 0 = some schema →
      Along (Run.Proceeds d ptrs bound since) (enterSchema visitChild i schema) r :=
    fun late here => enterSchema_proceeds comes bounded
      (bounded.suits_of_fragmentAt? inside late here)
  cases kind : (r.graph.node i).kind <;> rw [kind] at single
  case operation =>
    exact visitOperation_proceeds comes bounded inside (by rw [kind]; rfl) (by rw [kind]; rfl)
  case param =>
    refine along_node.bind fun h _ => ?_
    obtain ⟨rfl, rfl⟩ := ends_node.mp h
    refine single rfl ?_
    unfold Document.fragmentAt?
    exact kind ▸ rfl
  case body | response =>
    refine along_node.bind fun h _ => ?_
    obtain ⟨rfl, rfl⟩ := ends_node.mp h
    exact single rfl (by rw [Document.fragmentAt?, kind])
  case reference pointer =>
    refine along_pathOf.bind fun h _ => (Along.liftExcept _).bind fun h' _ => ?_
    obtain ⟨rfl, rfl⟩ := ends_pathOf.mp h
    obtain ⟨found, rfl⟩ := Ends.liftExcept_iff.mp h'
    refine single rfl ?_
    rw [Document.fragmentAt?, kind]
    exact Document.lookup?_of_component found
  case object synthetic => exact visitObject_proceeds bounded inside kind
  case composed | union =>
    exact visitBranches_proceeds comes bounded inside (kind ▸ rfl) fun place => by
      rw [Document.fragmentAt?, kind]
  case array | property =>
    refine along_node.bind fun h _ => ?_
    obtain ⟨rfl, rfl⟩ := ends_node.mp h
    exact Along.forM fun _ next => comes (next.bounded bounded)
  case scalar | enum | circular => exact .pure _

theorem markVisited_proceeds :
    Along (Run.Proceeds d ptrs bound since) (modifyNode i fun n => { n with visited := true }) r :=
  modifyNode_proceeds (fun n => { Node.Keeps.refl n with visited := fun _ => rfl })
    (fun _ => rfl) fun _ => rfl

theorem markConsolidated_proceeds :
    Along (Run.Proceeds d ptrs bound since)
      (modifyNode i fun n => { n with consolidated := true }) r :=
  modifyNode_proceeds (fun n => { Node.Keeps.refl n with consolidated := fun _ => rfl })
    (fun _ => rfl) fun _ => rfl

/-- A visit stays within the bounds, at any depth. -/
theorem visitWithin_proceeds {depth : Nat} (bounded : r.Bounded d ptrs bound since) :
    Along (Run.Proceeds d ptrs bound since) (visitWithin d depth i) r := by
  induction depth generalizing i r with
  | zero => exact .throw _
  | succ depth ih =>
    rw [visitWithin]
    refine along_node.bind fun h _ => ?_
    obtain ⟨rfl, rfl⟩ := ends_node.mp h
    split
    · exact .pure _
    · next fresh =>
      have inside := Graph.lt_size_of_not_visited (Bool.eq_false_iff.mpr fresh)
      refine markVisited_proceeds.bind fun {_ s} h next => ?_
      have bounded' : (s.enter i (r.graph.node i).kind.tag).Bounded d ptrs bound since :=
        (next.bounded bounded).of_same rfl rfl
      have kind : (s.graph.node i).kind = (r.graph.node i).kind := by
        rw [← ends_modifyNode.mp h]
        exact Graph.part_modify (f := fun n => { n with visited := true }) Node.kind
          (fun _ => rfl) i
      refine along_framed ?_ fun later => ⟨later.grown, fun before =>
        (later.bounded (before.of_same rfl rfl)).of_same rfl rfl⟩
      have along : Along (Run.Proceeds d ptrs bound since)
          (visitKind d (visitWithin d depth) i (s.graph.node i).kind)
          (s.enter i (r.graph.node i).kind.tag) :=
        visitKind_proceeds ih bounded' (inside.trans_le next.grown.size_le)
      rwa [kind] at along

/-- **A visit stays within the bounds.** -/
theorem visit_proceeds (bounded : r.Bounded d ptrs bound since) :
    Along (Run.Proceeds d ptrs bound since) (visit d i) r :=
  Along.get.bind fun h _ => by
    obtain ⟨rfl, rfl⟩ := Ends.get_iff.mp h
    exact visitWithin_proceeds bounded

end Build

end RestGraph
