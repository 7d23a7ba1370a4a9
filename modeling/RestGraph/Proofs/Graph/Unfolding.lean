import RestGraph.Proofs.Graph.Making
import RestGraph.Proofs.Graph.Visiting

/-!
# Unfolding

A visit gives a node the children that its site says, or fails as the site does. What was visited
before is of no matter: a node that is passed over has its children already, and these are the same.
-/

namespace RestGraph

variable {d : Document} {r s t : Run} {busy busy' work : Set Nat} {i c : Nat} {below : Site}

/-- The nodes that will get children when they are visited. -/
def Graph.pending (g : Graph) : Set Nat :=
  { o | (g.node o).kind.isEager = false ∧ (g.node o).visited = false }

/-- What the visit of a node works on, the node itself included. -/
def Graph.opened (g : Graph) (i : Nat) : Set Nat :=
  { o | (g.node o).kind.isEager = false ∧ (o = i ∨ (g.node o).visited = false) }

/-- What is made with its children awaits no visit. -/
theorem Graph.notMem_pending_of_eager {g : Graph} {o : Nat}
    (eager : (g.node o).kind.isEager = true) : o ∉ g.pending := fun pending => by
  rw [pending.1] at eager
  cases eager

/-- What was visited awaits no visit. -/
theorem Graph.notMem_pending_of_visited {g : Graph} {o : Nat}
    (visited : (g.node o).visited = true) : o ∉ g.pending := fun pending => by
  rw [pending.2] at visited
  cases visited

theorem Graph.notMem_opened_of_eager {g : Graph} {o : Nat}
    (eager : (g.node o).kind.isEager = true) : o ∉ g.opened i := fun opened => by
  rw [opened.1] at eager
  cases eager

/-- What is pending later was pending before. -/
theorem Graph.Grows.pending {g h : Graph} (grows : g.Grows work h) :
    ∀ o < g.size, o ∈ h.pending → o ∈ g.pending := fun _ inside pending =>
  ⟨grows.kind inside ▸ pending.1, Bool.eq_false_iff.mpr fun visited =>
    Bool.eq_false_iff.mp pending.2 ((grows.keeps inside).visited visited)⟩

/-- Every node that was visited has the children that its site says, but for those that a visit is
busy with. -/
structure Run.Tidy (d : Document) (busy : Set Nat) (r : Run) : Prop where
  orderly : r.graph.Orderly
  extent : r.extent = d.root.size
  settled : ∀ {o}, o < r.graph.size → (r.graph.node o).visited = true → o ∉ busy →
    Settles (fun n => (r.graph.site o).children d n) (.ok (r.graph.sitesBelow o))

/-- Growth at nodes that a visit is busy with leaves the others tidy. -/
theorem Run.Tidy.grow (tidy : r.Tidy d busy) (grows : r.graph.Grows work s.graph)
    (orderly : s.graph.Orderly) (extent : s.extent = r.extent)
    (free : ∀ {o}, o < r.graph.size → (r.graph.node o).kind.isEager = true → o ∉ work)
    (old : ∀ {o}, o < s.graph.size → (s.graph.node o).visited = true → o ∉ busy' →
      o < r.graph.size ∧ (r.graph.node o).visited = true ∧ o ∉ busy ∧ o ∉ work) :
    s.Tidy d busy' where
  orderly := orderly
  extent := extent.trans tidy.extent
  settled inside visited idle := by
    obtain ⟨inside, visited, idle, rest⟩ := old inside visited idle
    rw [grows.site tidy.orderly free inside, grows.sitesBelow tidy.orderly free inside rest]
    exact tidy.settled inside visited idle

/-- What a step comes to that gives a node the children that its site says. -/
structure Run.Unfolds (d : Document) (busy work : Set Nat) (i : Nat) (r : Run) (sites : List Site)
    (s : Run) : Prop where
  tidy : s.Tidy d busy
  grows : r.graph.Grows work s.graph
  sites : s.graph.sitesBelow i = sites

/-- None of the nodes stands at the given one or below it. -/
def Graph.Apart (g : Graph) (nodes : Set Nat) (i : Nat) : Prop :=
  ∀ b ∈ nodes, b < g.size ∧ i ∉ b :: g.ancestors b

/-- The visits of nodes that have nothing at them or below that visits are busy with. -/
def Build.Unfolding (d : Document) (visitChild : Nat → Build Unit) : Prop :=
  ∀ {busy i r}, r.Tidy d busy → r.graph.Apart busy i → i < r.graph.size →
    Yields (· = .depth) (visitChild i) r (fun n => (r.graph.site i).children d n)
      fun sites _ s => r.Unfolds d busy r.graph.pending i sites s

/-! ## Gathering children -/

/-- The node gets its children from the innermost visit. -/
structure Run.Gathering (d : Document) (busy : Set Nat) (i : Nat) (r : Run) : Prop where
  tidy : r.Tidy d busy
  inside : i < r.graph.size
  late : (r.graph.node i).kind.isEager = false
  visited : (r.graph.node i).visited = true
  mem : i ∈ busy
  old : ∀ b ∈ busy, b < r.graph.size

/-- The node has got more children, which stand where the sites say. -/
structure Run.Gathers (d : Document) (busy : Set Nat) (i : Nat) (r : Run) (more : List Site)
    (s : Run) : Prop where
  gathering : s.Gathering d busy i
  grows : r.graph.Grows (insert i r.graph.pending) s.graph
  sites : s.graph.sitesBelow i = r.graph.sitesBelow i ++ more

namespace Run

variable {more later : List Site}

namespace Gathering

/-- A node that gathers is ready for a child. -/
theorem ready (gathering : r.Gathering d busy i) : r.graph.Ready i where
  inside := gathering.inside
  due _ := gathering.visited
  single eager := by
    rw [gathering.late] at eager
    cases eager

/-- An eager node gathers nothing. -/
theorem ne_of_eager (gathering : r.Gathering d busy i) {o : Nat}
    (eager : (r.graph.node o).kind.isEager = true) : o ∉ ({i} : Set Nat) := by
  rintro rfl
  rw [gathering.late] at eager
  cases eager

theorem grow (gathering : r.Gathering d busy i) (grows : r.graph.Grows work s.graph)
    (tidy : s.Tidy d busy) : s.Gathering d busy i where
  tidy := tidy
  inside := gathering.inside.trans_le grows.size_le
  late := by rw [grows.kind gathering.inside, gathering.late]
  visited := (grows.keeps gathering.inside).visited gathering.visited
  mem := gathering.mem
  old b mem := (gathering.old b mem).trans_le grows.size_le

end Gathering

namespace Gathers

/-- With nothing done, nothing is gathered. -/
theorem refl (gathering : r.Gathering d busy i) : r.Gathers d busy i [] r :=
  ⟨gathering, .refl _ _, (List.append_nil _).symm⟩

/-- A node that gathers stays at its site. -/
theorem site (gathers : r.Gathers d busy i more s) (gathering : r.Gathering d busy i) :
    s.graph.site i = r.graph.site i := by
  refine gathers.grows.site gathering.tidy.orderly ?_ gathering.inside
  rintro o - eager (same | pending)
  · exact gathering.ne_of_eager eager same
  · exact Graph.notMem_pending_of_eager eager pending

/-- What is gathered later stands after what was gathered first. -/
theorem trans (first : r.Gathers d busy i more s) (second : s.Gathers d busy i later t) :
    r.Gathers d busy i (more ++ later) t where
  gathering := second.gathering
  grows := first.grows.trans second.grows fun o inside =>
    Or.imp_right (first.grows.pending o inside)
  sites := by rw [second.sites, first.sites, List.append_assoc]

/-- The node gets a child that is not visited yet. -/
theorem of_gains (gathering : r.Gathering d busy i) (gains : r.Gains i c s) :
    r.Gathers d busy i [s.graph.site c] s where
  gathering := by
    refine gathering.grow gains.grows (gathering.tidy.grow gains.grows gains.orderly gains.extent
      (fun _ => gathering.ne_of_eager) fun inside visited idle => ?_)
    obtain ⟨inside, visited⟩ := gains.unvisited inside visited
    exact ⟨inside, visited, idle, fun same => idle (same ▸ gathering.mem)⟩
  grows := gains.grows.mono fun _ _ => .inl
  sites := by
    rw [Graph.sitesBelow, gains.children, List.map_append,
      gains.grows.map_site gathering.tidy.orderly fun _ => gathering.ne_of_eager]
    rfl

/-- A child is visited, or any other node that comes later. -/
theorem of_unfolds {sites : List Site} (gathering : r.Gathering d busy i)
    (unfolds : r.Unfolds d busy r.graph.pending c sites s) : r.Gathers d busy i [] s where
  gathering := gathering.grow unfolds.grows unfolds.tidy
  grows := unfolds.grows.mono fun _ _ => .inr
  sites := by
    rw [List.append_nil]
    exact unfolds.grows.sitesBelow gathering.tidy.orderly
      (fun _ => Graph.notMem_pending_of_eager) gathering.inside
      (Graph.notMem_pending_of_visited gathering.visited)

/-- The node is changed in what is no matter for sites. -/
theorem of_modify {f : Node → Node} (gathering : r.Gathering d busy i)
    (keep : ∀ n : Node, n.Keeps (f n)) (kind : ∀ n, (f n).kind = n.kind)
    (children : ∀ n, (f n).children = n.children) (visited : ∀ n, (f n).visited = n.visited) :
    r.Gathers d busy i [] (r.onGraph fun g => g.modify i f) := by
  have grows : r.graph.Grows {i} (r.onGraph fun g => g.modify i f).graph :=
    .modify (keep _) (kind _)
  refine ⟨gathering.grow grows (gathering.tidy.grow grows
    (gathering.tidy.orderly.modify (keep _) (children _)) rfl (fun _ => gathering.ne_of_eager)
      fun inside done idle => ?_), grows.mono fun _ _ => .inl, ?_⟩
  · obtain ⟨inside, done⟩ := Graph.NoNew.modify visited inside done
    exact ⟨inside, done, idle, fun same => idle (same ▸ gathering.mem)⟩
  · rw [List.append_nil, Graph.sitesBelow]
    rw [show ((r.onGraph fun g => g.modify i f).graph.node i).children = (r.graph.node i).children
      from Graph.part_modify Node.children children i]
    exact grows.map_site gathering.tidy.orderly fun _ => gathering.ne_of_eager

end Gathers

end Run

namespace Build

variable {visitChild : Nat → Build Unit} {α : Type} {site : Site} {schema : Json}

/-- Children are gathered in a loop. -/
theorem forM_gathers {f : α → Build Unit} {step : Nat → Nat → α → Except Fault (List Site)}
    {xs : List α} {count : Nat} (gathering : r.Gathering d busy i) (here : r.graph.site i = site)
    (counted : (r.graph.sitesBelow i).length = count)
    (each : ∀ {x s}, s.Gathering d busy i → s.graph.site i = site →
      Yields (· = .depth) (f x) s (fun n => step n (s.graph.sitesBelow i).length x)
        fun more _ t => s.Gathers d busy i more t) :
    Yields (· = .depth) (xs.forM f) r (fun n => Site.gather (step n) count xs)
      fun more _ s => r.Gathers d busy i more s := by
  induction xs generalizing r count with
  | nil => exact .pure (.refl gathering)
  | cons x xs ih =>
    rw [List.forM_eq_forM, List.forM_cons]
    rw [← counted]
    refine (each gathering here).bind fun {_ more s} _ first => ?_
    refine (ih first.gathering ((first.site gathering).trans here) ?_).then_ok
      fun later => first.trans later
    rw [first.sites, List.length_append]

section Visits

variable (visits : Unfolding d visitChild)

include visits

/-- A child that was made is visited. -/
theorem visit_gathers (gathering : r.Gathering d busy i) (made : MadeAt i r below c s) :
    Yields (· = .depth) (visitChild c) s (fun n => Site.visited (Site.children d n) below)
      fun more _ t => r.Gathers d busy i more t := by
  obtain ⟨rfl, gains⟩ := made
  have got := Run.Gathers.of_gains gathering gains
  have apart : s.graph.Apart busy c := fun b mem => by
    have before : b < c := gains.handle ▸ gathering.old b mem
    refine ⟨before.trans gains.inside, fun above => ?_⟩
    rcases List.mem_cons.mp above with same | above
    · exact Nat.lt_irrefl b (same ▸ before)
    · exact Nat.lt_asymm before (Graph.lt_of_mem_ancestors above)
  have visited := visits got.gathering.tidy apart gains.inside
  exact visited.then_ok fun unfolds => got.trans (.of_unfolds got.gathering unfolds)

/-- A part of an operation is attached and visited. -/
theorem attach_gathers {x : Seed} (gathering : r.Gathering d busy i) (here : r.graph.site i = site)
    (graph : s.graph = r.graph) (extent : s.extent = r.extent) (other : x.kind.tag ≠ .circular) :
    Yields (· = .depth) (attach i x >>= visitChild) s
      (fun n => Site.visited (Site.children d n) (site.below x))
      fun more _ t => r.Gathers d busy i more t := by
  rw [← here]
  exact .after (ends_attach.mpr ⟨congrArg Graph.size graph, rfl⟩) (visit_gathers visits gathering
    (attach_madeAt gathering.tidy.orderly gathering.ready graph extent (Graph.seed_sprout other)))

theorem enterSchema_gathers (gathering : r.Gathering d busy i) (here : r.graph.site i = site) :
    Yields (· = .depth) (enterSchema visitChild i schema) r
      (fun n => site.enter (Site.children d n) (r.graph.sitesBelow i).length schema)
      fun more _ t => r.Gathers d busy i more t := by
  have made : Yields (· = .depth) (fromSchema i schema) r _ _ :=
    fromSchema_yields gathering.tidy.orderly gathering.ready
  rw [here, ← List.length_map (Graph.site r.graph)] at made
  exact made.bind fun _ made => visit_gathers visits gathering made

end Visits

/-! ## Operations -/

theorem deref_yields {path : String} {j : Json} (extent : r.extent = d.root.size) :
    Yields (· = .depth) (deref d path j) r (fun _ => d.deref path j)
      (fun b a s => a = b ∧ r = s) := by
  unfold deref Document.deref
  refine .after (Ends.get_iff.mpr ⟨rfl, rfl⟩) ?_
  rw [extent]
  exact Yields.liftExcept.imp fun both => ⟨both.2.1, both.2.2.symm⟩

theorem mergeParameters_yields {path : String} {raw : List Json} (extent : r.extent = d.root.size) :
    Yields (· = .depth) (mergeParameters d path raw) r (fun _ => d.mergeParameters path raw)
      (fun b a s => a = b ∧ r = s) := by
  have folded : ∀ merged, Yields (· = .depth) (raw.foldlM (addParameter d path) merged) r
      (fun _ => raw.foldlM (d.addParameter path) merged) (fun b a s => a = b ∧ r = s) := by
    induction raw with
    | nil => exact fun merged => .pure ⟨rfl, rfl⟩
    | cons j raw ih =>
      intro merged
      rw [List.foldlM_cons]
      simp only [List.foldlM_cons]
      refine Yields.bind (Q := fun b a s => a = b ∧ r = s) ?_ ?_
      · refine (deref_yields extent).bind ?_
        rintro param _ _ - ⟨rfl, rfl⟩
        split <;> exact .pure ⟨rfl, rfl⟩
      · rintro merged _ _ - ⟨rfl, rfl⟩
        exact ih merged
  refine (folded []).bind ?_
  rintro merged _ _ - ⟨rfl, rfl⟩
  exact .pure ⟨rfl, rfl⟩

theorem chosenResponse_yields {path : String} {responses : Json} (extent : r.extent = d.root.size) :
    Yields (· = .depth) (chosenResponse d path responses) r
      (fun _ => d.chosenResponse path responses) (fun b a s => a = b ∧ r = s) := by
  unfold chosenResponse Document.chosenResponse
  cases chooseStatus? responses with
  | none => exact .pure ⟨rfl, rfl⟩
  | some status =>
    refine (deref_yields extent).bind ?_
    rintro response _ _ - ⟨rfl, rfl⟩
    exact .pure ⟨rfl, rfl⟩

section Parts

variable (visits : Unfolding d visitChild) (gathering : r.Gathering d busy i)
  (here : r.graph.site i = site)

include visits gathering here

theorem visitParameter_gathers {param : Json} :
    Yields (· = .depth) (visitParameter visitChild i site.seed.name param) r
      (fun n => site.parameter (Site.children d n) param)
      fun more _ t => r.Gathers d busy i more t := by
  unfold visitParameter Site.parameter
  dsimp only
  cases Location.ofText (paramPlace param) with
  | cookie => exact .pure (.refl gathering)
  | _ => exact attach_gathers visits gathering here rfl rfl Tag.noConfusion

theorem visitRequest_gathers {raw : Json} :
    Yields (· = .depth) (visitRequest d visitChild i site.seed.name site.path raw) r
      (fun n => site.request d (Site.children d n) raw)
      fun more _ t => r.Gathers d busy i more t := by
  unfold visitRequest Site.request
  refine (deref_yields gathering.tidy.extent).bind ?_
  rintro body _ _ - ⟨rfl, rfl⟩
  cases Media.schema? body with
  | none => exact .pure (.refl gathering)
  | some schema => exact attach_gathers visits gathering here rfl rfl Tag.noConfusion

theorem visitResponse_gathers {responses : Json} :
    Yields (· = .depth) (visitResponse d visitChild i site.seed.name site.path responses) r
      (fun n => site.response d (Site.children d n) responses)
      fun more _ t => r.Gathers d busy i more t := by
  unfold visitResponse Site.response
  refine (chosenResponse_yields gathering.tidy.extent).bind ?_
  rintro chosen _ _ - ⟨rfl, rfl⟩
  cases chosen with
  | some answer => exact attach_gathers visits gathering here rfl rfl Tag.noConfusion
  | none =>
    exact .after (ends_warn (u := ⟨⟩).mpr rfl)
      (attach_gathers visits gathering here rfl rfl Tag.noConfusion)

theorem visitOperation_gathers {method : Method} {shared : List Json}
    (childless : (r.graph.sitesBelow i).length = 0) :
    Yields (· = .depth) (visitOperation d visitChild i method shared) r
      (fun n => site.operation d (Site.children d n) method shared)
      fun more _ t => r.Gathers d busy i more t := by
  unfold visitOperation Site.operation
  refine .after (ends_node.mpr ⟨rfl, rfl⟩) (.after (ends_pathOf.mpr ⟨rfl, rfl⟩) ?_)
  have name : (r.graph.node i).name = site.seed.name := congrArg (fun s : Site => s.seed.name) here
  have schema : (r.graph.node i).schema = site.seed.schema :=
    congrArg (fun s : Site => s.seed.schema) here
  rw [← Graph.path_site, here, name, schema]
  refine (mergeParameters_yields gathering.tidy.extent).bind ?_
  rintro params _ _ - ⟨rfl, rfl⟩
  have args : Yields (· = .depth) (params.forM (visitParameter visitChild i site.seed.name)) r
      (fun n => Site.gather (fun _ => site.parameter (Site.children d n)) 0 params) _ :=
    forM_gathers gathering here childless fun gathering here =>
      visitParameter_gathers visits gathering here
  refine args.bind fun {_ more s} _ first => ?_
  have here := (first.site gathering).trans here
  have answer : ∀ {body t}, s.Gathers d busy i body t →
      Yields (· = .depth) (visitResponse d visitChild i site.seed.name site.path
        ((site.seed.schema.get? "responses").getD .null)) t
        (fun n => do
          let answer ← site.response d (Site.children d n)
            ((site.seed.schema.get? "responses").getD .null)
          return more ++ (body ++ answer)) fun more _ t => r.Gathers d busy i more t :=
    fun second => (visitResponse_gathers visits second.gathering
      ((second.site first.gathering).trans here)).then_ok fun third =>
        first.trans (second.trans third)
  have none := Run.Gathers.refl first.gathering
  unfold Site.requested
  cases site.seed.schema.get? "requestBody" with
  | none => exact answer none
  | some raw =>
    dsimp only
    split
    · exact (visitRequest_gathers visits first.gathering here).bind fun _ second => answer second
    · exact answer none

end Parts

/-! ## Visits -/

/-- A field is gathered with its entry. -/
theorem field_gathers {name : String} {required : Bool} (gathering : r.Gathering d busy i)
    (here : r.graph.site i = site) :
    Yields (· = .depth) (do
        let prop ← fromProp d i name schema required
        modifyNode i fun n => { n with props := Run.assign name prop n.props }) r
      (fun n => ([·]) <$> Site.ofProp d n site name schema required [])
      fun more _ s => r.Gathers d busy i more s := by
  have made : Yields (· = .depth) (fromProp d i name schema required) r
      (fun n => Site.ofProp d n (r.graph.site i) name schema required []) (MadeAt i r) :=
    .after (Ends.get_iff.mpr ⟨rfl, rfl⟩) (propWithin_yields gathering.tidy.orderly
      gathering.ready gathering.tidy.extent fun _ none => absurd none List.not_mem_nil)
  rw [here] at made
  refine made.bind_map fun {_ c t} _ made => .of_ends (ends_modifyNode (u := ⟨⟩).mpr rfl) ?_
  obtain ⟨rfl, gains⟩ := made
  have got := Run.Gathers.of_gains gathering gains
  exact got.trans (.of_modify got.gathering (fun n => { Node.Keeps.refl n with })
    (fun _ => rfl) (fun _ => rfl) fun _ => rfl)

theorem visitObject_gathers (gathering : r.Gathering d busy i) (here : r.graph.site i = site)
    (childless : (r.graph.sitesBelow i).length = 0) :
    Yields (· = .depth) (visitObject d i) r
      (fun n => Site.gather (fun _ (name, schema) => ([·]) <$>
        Site.ofProp d n site name schema ((requiredNames site.seed.schema).contains name) [])
        0 (sortedProperties site.seed.schema))
      fun more _ s => r.Gathers d busy i more s := by
  have schema : (r.graph.node i).schema = site.seed.schema :=
    congrArg (fun s : Site => s.seed.schema) here
  unfold visitObject
  refine .after (ends_node.mpr ⟨rfl, rfl⟩) ?_
  rw [schema]
  exact forM_gathers gathering here childless fun gathering here => field_gathers gathering here

section Kinds

variable (visits : Unfolding d visitChild)

include visits

theorem visitBranches_gathers {keys : List String} (gathering : r.Gathering d busy i)
    (here : r.graph.site i = site) (childless : (r.graph.sitesBelow i).length = 0) :
    Yields (· = .depth) (visitBranches visitChild i keys) r
      (fun n => Site.gather (site.enter (Site.children d n)) 0 (branchesOf site.seed.schema keys))
      fun more _ s => r.Gathers d busy i more s := by
  have schema : (r.graph.node i).schema = site.seed.schema :=
    congrArg (fun s : Site => s.seed.schema) here
  unfold visitBranches
  refine .after (ends_node.mpr ⟨rfl, rfl⟩) ?_
  rw [schema]
  exact forM_gathers gathering here childless fun gathering here =>
    enterSchema_gathers visits gathering here

/-- The node gets all its children from the visit. -/
theorem visitLate_gathers (gathering : r.Gathering d busy i)
    (childless : (r.graph.sitesBelow i).length = 0) :
    Yields (· = .depth) (visitKind d visitChild i (r.graph.node i).kind) r
      (fun n => (r.graph.site i).children d n) fun more _ s => r.Gathers d busy i more s := by
  have seed : (r.graph.site i).seed.kind = (r.graph.node i).kind.unaimed := rfl
  have path : (r.graph.site i).path = r.graph.pathOf i := Graph.path_site
  have late := gathering.late
  have enter : ∀ schema, Yields (· = .depth) (enterSchema visitChild i schema) r
      (fun n => (r.graph.site i).enter (Site.children d n) 0 schema) _ := fun schema => by
    have entered : Yields (· = .depth) (enterSchema visitChild i schema) r _ _ :=
      enterSchema_gathers visits gathering rfl
    rwa [childless] at entered
  refine .of_succ ?_
  cases kind : (r.graph.node i).kind <;> rw [kind] at seed late <;> unfold Site.children <;>
    simp only [seed, Kind.unaimed]
  case operation method path shared => exact visitOperation_gathers visits gathering rfl childless
  case param | body | response => exact .after (ends_node.mpr ⟨rfl, rfl⟩) (enter _)
  case reference pointer =>
    refine .after (ends_pathOf.mpr ⟨rfl, rfl⟩) ?_
    rw [path]
    refine Yields.liftExcept.bind ?_
    rintro target _ _ - ⟨-, rfl, rfl⟩
    exact enter target
  case object => exact visitObject_gathers gathering rfl childless
  case composed | union => exact visitBranches_gathers visits gathering rfl childless
  case scalar | enum | circular => exact .pure (.refl gathering)
  case array | property => cases late

/-- What was built at once with the node is visited. -/
theorem visitEager_unfolds (tidy : r.Tidy d busy) (inside : i < r.graph.size)
    (apart : ∀ b ∈ busy, b < r.graph.size ∧ (i ∈ b :: r.graph.ancestors b → b = i))
    (visited : (r.graph.node i).visited = true)
    (eager : (r.graph.node i).kind.isEager = true) :
    Yields (· = .depth) (visitKind d visitChild i (r.graph.node i).kind) r
      (fun n => (r.graph.site i).children d n)
      fun sites _ s => r.Unfolds d busy r.graph.pending i sites s := by
  have children : ∀ n, (r.graph.site i).children d (n + 1) =
      Site.gather (fun _ => Site.visited (Site.children d n)) 0
        (r.graph.site i).element?.toList := fun n => by
    have seed : (r.graph.site i).seed.kind = (r.graph.node i).kind.unaimed := rfl
    unfold Site.children
    cases kind : (r.graph.node i).kind <;> rw [kind] at seed eager <;>
      first | exact Bool.noConfusion eager | simp only [seed, Kind.unaimed]
  have step : visitKind d visitChild i (r.graph.node i).kind = visitChildren visitChild i := by
    cases kind : (r.graph.node i).kind <;> rw [kind] at eager <;> first | rfl | cases eager
  refine .of_succ ?_
  simp only [children]
  rw [step]
  refine .after (ends_node.mpr ⟨rfl, rfl⟩) ?_
  cases below : (r.graph.node i).children with
  | nil =>
    have none : (r.graph.site i).element? = none := by
      unfold Site.element?
      rw [show (r.graph.site i).inner = [] from Graph.innerOf_of_childless below]
    rw [none]
    exact .pure ⟨tidy, .refl _ _, by rw [Graph.sitesBelow, below]; rfl⟩
  | cons c rest =>
    have narrow := tidy.orderly.narrow eager
    rw [below, List.length_cons] at narrow
    obtain rfl : rest = [] := List.eq_nil_of_length_eq_zero (by omega)
    have child : c ∈ (r.graph.node i).children := below ▸ List.mem_singleton_self c
    have bounds := tidy.orderly.below child
    have element : (r.graph.site i).element? = some (r.graph.site c) := by
      unfold Site.element?
      rw [show (r.graph.site i).inner = _ from Graph.innerOf_of_first eager below bounds]
      exact congrArg some (tidy.orderly.site_of_child child).symm
    rw [element]
    have above : i ∈ r.graph.ancestors c := by
      rw [tidy.orderly.ancestors_of_child child]
      exact List.mem_cons_self
    have apart : r.graph.Apart busy c := fun b mem => by
      obtain ⟨inside, only⟩ := apart b mem
      refine ⟨inside, fun under => ?_⟩
      obtain rfl := only (List.mem_cons_of_mem b ((List.mem_cons.mp under).elim
        (fun same => same ▸ above) fun under => Graph.mem_ancestors_trans above under))
      rcases List.mem_cons.mp under with same | under
      · exact Nat.lt_irrefl c (same ▸ bounds.1)
      · exact Nat.lt_asymm bounds.1 (Graph.lt_of_mem_ancestors under)
    have entered := visits tidy apart bounds.2
    have only : r.graph.sitesBelow i = [r.graph.site c] := by rw [Graph.sitesBelow, below]; rfl
    have passed : Yields (· = .depth) (visitChild c) r
        (fun n => Site.visited (Site.children d n) (r.graph.site c))
        fun more _ s => r.Unfolds d busy r.graph.pending i (more ++ []) s :=
      entered.then_ok fun unfolds => ⟨unfolds.tidy, unfolds.grows, by
        rw [unfolds.grows.sitesBelow tidy.orderly (fun _ => Graph.notMem_pending_of_eager) inside
          (Graph.notMem_pending_of_visited visited), only]
        rfl⟩
    rw [List.forM_eq_forM, List.forM_cons, List.forM_nil]
    exact (passed.then_ok (R := fun sites _ s => r.Unfolds d busy r.graph.pending i sites s)
      id).answer id

/-- Whatever its kind, a node unfolds as its site says. -/
theorem visitKind_unfolds (tidy : r.Tidy d busy) (inside : i < r.graph.size) (mem : i ∈ busy)
    (apart : ∀ b ∈ busy, b < r.graph.size ∧ (i ∈ b :: r.graph.ancestors b → b = i))
    (visited : (r.graph.node i).visited = true)
    (childless : (r.graph.node i).kind.isEager = false → (r.graph.node i).children = []) :
    Yields (· = .depth) (visitKind d visitChild i (r.graph.node i).kind) r
      (fun n => (r.graph.site i).children d n)
      fun sites _ s => r.Unfolds d busy (r.graph.opened i) i sites s := by
  cases late : (r.graph.node i).kind.isEager with
  | true =>
    refine (visitEager_unfolds visits tidy inside apart visited late).imp fun unfolds => ?_
    exact ⟨unfolds.tidy, unfolds.grows.mono fun o _ pending => ⟨pending.1, .inr pending.2⟩,
      unfolds.sites⟩
  | false =>
    have none : r.graph.sitesBelow i = [] := by rw [Graph.sitesBelow, childless late]; rfl
    refine (visitLate_gathers visits ⟨tidy, inside, late, visited, mem, fun b mem =>
      (apart b mem).1⟩
      (by rw [none]; rfl)).imp fun gathers => ⟨gathers.gathering.tidy, gathers.grows.mono ?_, ?_⟩
    · rintro o - (rfl | pending)
      · exact ⟨late, .inl rfl⟩
      · exact ⟨pending.1, .inr pending.2⟩
    · rw [gathers.sites, none]
      rfl

end Kinds

/-- A frame is no matter for what a step yields. -/
theorem framed_yields {β : Type} {excused : Fault → Prop} {step : Build α} {tag : Tag}
    {x : Nat → Except Fault β} {Q R : β → α → Run → Prop}
    (yields : Yields excused step (r.enter i tag) x Q)
    (good : ∀ {b a s}, Q b a s → R b a s.leave) : Yields excused (framed i tag step) r x R where
  ends h := by
    obtain ⟨s, inner, rfl⟩ := ends_framed.mp h
    exact (yields.ends inner).imp fun _ => And.imp_right good
  fails {e t} h := by
    rw [run_framed] at h
    rcases here : step.run (r.enter i tag) with ⟨e' | a, s⟩ <;> rw [here] at h <;> cases h
    exact yields.fails here

/-- A visit gives the node the children that its site says. -/
theorem visitWithin_unfolding (depth : Nat) : Unfolding d (visitWithin d depth) := by
  induction depth with
  | zero => exact fun _ _ _ => .throw_excused rfl
  | succ depth ih =>
    intro busy i r tidy apart inside
    have idle : i ∉ busy := fun mem => (apart i mem).2 List.mem_cons_self
    rw [visitWithin]
    refine .after (ends_node.mpr ⟨rfl, rfl⟩) ?_
    by_cases visited : (r.graph.node i).visited = true
    · rw [if_pos visited]
      exact .of_settles (Ends.pure_iff.mpr ⟨rfl, rfl⟩) (tidy.settled inside visited idle)
        ⟨tidy, .refl _ _, rfl⟩
    · rw [if_neg visited]
      refine .after (ends_modifyNode (u := ⟨⟩).mpr rfl) ?_
      have grows := Run.grows_visiting (r := r) (i := i)
      have tidy' : (r.visiting i).Tidy d (insert i busy) := by
        have keep : (r.graph.node i).Keeps { r.graph.node i with visited := true } :=
          { Node.Keeps.refl _ with visited := fun _ => rfl }
        refine tidy.grow grows (tidy.orderly.modify keep rfl) rfl
          (fun _ _ => Set.notMem_empty _) fun {o} inside visited idle => ?_
        rw [Run.node_visiting_of_ne fun same => idle (.inl same)] at visited
        exact ⟨Run.size_visiting (r := r) ▸ inside, visited, fun mem => idle (.inr mem),
          Set.notMem_empty _⟩
      have inside' : i < (r.visiting i).graph.size := inside.trans_le grows.size_le
      have site : (r.visiting i).graph.site i = r.graph.site i :=
        grows.site tidy.orderly (fun _ _ => Set.notMem_empty _) inside
      have unfolds := visitKind_unfolds ih tidy' inside' (Set.mem_insert i busy)
        (fun b mem => by
          rcases mem with rfl | mem
          · exact ⟨inside', fun _ => rfl⟩
          · obtain ⟨old, apart⟩ := apart b mem
            exact ⟨old.trans_le grows.size_le, fun below =>
              absurd (grows.ancestors old ▸ below) apart⟩)
        (congrArg Node.visited (Run.node_visiting inside)) fun late => by
          rw [Run.kind_visiting] at late
          rw [Run.children_visiting]
          exact tidy.orderly.late late (Bool.eq_false_iff.mpr visited)
      rw [Run.kind_visiting, site] at unfolds
      refine framed_yields unfolds.know ?_
      rintro sites _ s ⟨settles, unfolds⟩
      have site' : s.graph.site i = r.graph.site i := by
        rw [unfolds.grows.site tidy'.orderly (fun _ => Graph.notMem_opened_of_eager) inside', site]
      refine ⟨⟨unfolds.tidy.orderly, unfolds.tidy.extent, fun {o} inside visited idle => ?_⟩,
        grows.idle.trans unfolds.grows fun o old opened => ⟨grows.kind old ▸ opened.1, ?_⟩,
        unfolds.sites⟩
      · by_cases same : o = i
        · rw [same, show s.leave.graph.site i = _ from site',
            show s.leave.graph.sitesBelow i = _ from unfolds.sites]
          exact settles
        · exact unfolds.tidy.settled inside visited fun mem => mem.elim same idle
      · rcases opened.2 with rfl | before
        · exact Bool.eq_false_iff.mpr visited
        · exact Bool.eq_false_iff.mpr fun done =>
            Bool.eq_false_iff.mp before ((grows.keeps old).visited done)

/-- Whatever was visited before, a visit gives the node the children that its site says. -/
theorem visit_unfolds (tidy : r.Tidy d ∅) (inside : i < r.graph.size) :
    Yields (· = .depth) (visit d i) r (fun n => (r.graph.site i).children d n)
      fun sites _ s => r.Unfolds d ∅ r.graph.pending i sites s :=
  .after (Ends.get_iff.mpr ⟨rfl, rfl⟩)
    (visitWithin_unfolding _ tidy (fun _ none => absurd none (Set.notMem_empty _)) inside)

end Build

end RestGraph
