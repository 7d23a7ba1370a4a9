import RestGraph.Proofs.Graph.Unfolding
import RestGraph.Proofs.Schema.Expanding

/-!
# History

Calls build the graph as far as they need it. What a path selects, or the fault that keeps it from
selecting anything, is read off the full expansion, so it does not depend on what was called before,
as long as no call has failed.
-/

namespace RestGraph

variable {d : Document} {r s t : Run} {i : Nat}

/-! ## Runs without failures -/

namespace Graph

variable {g : Graph} {f : Node → Node}

/-- A change that is no matter for sites. -/
theorem Orderly.site_modify (orderly : g.Orderly) (seed : ∀ n, (f n).seed = n.seed)
    (kind : ∀ n, (f n).kind = n.kind) (parent : ∀ n, (f n).parent = n.parent)
    (children : ∀ n, (f n).children = n.children) (j : Nat) :
    (g.modify i f).site j = g.site j := by
  have seedAt : (g.modify i f).seedAt = g.seedAt := funext fun j => part_modify Node.seed seed j
  have ancestors : ∀ j, (g.modify i f).ancestors j = g.ancestors j := fun j => by
    fun_induction Graph.ancestors g j with
    | case1 j root => exact ancestors_of_root ((part_modify Node.parent parent j).trans root)
    | case2 j p above lt ih =>
      rw [ancestors_of_parent ((part_modify Node.parent parent j).trans above) lt, ih]
    | case3 j p above out =>
      rw [Graph.ancestors, show ((g.modify i f).node j).parent = some p from
        (part_modify Node.parent parent j).trans above]
      exact if_neg out
  have innerOf : (g.modify i f).innerOf j = g.innerOf j := by
    have same : ∀ j, ((g.modify i f).node j).kind = (g.node j).kind := part_modify Node.kind kind
    have below : ∀ j, ((g.modify i f).node j).children = (g.node j).children :=
      part_modify Node.children children
    fun_induction Graph.innerOf g j with
    | case1 j eager c bounds first ih =>
      obtain ⟨rest, children⟩ := firstBelow?_eq_some first
      rw [innerOf_of_first (c := c) (by rwa [same]) (by rw [below, children])
        (by simpa), ih, seedAt]
    | case2 j eager first =>
      exact innerOf_of_childless (by rw [below, orderly.children_of_first_none first])
    | case3 j late => exact innerOf_of_late (by rw [same, Bool.eq_false_iff.mpr late])
  rw [site, site, seedAt, ancestors, innerOf]

end Graph

namespace Run

theorem Tidy.modify {busy : Set Nat} {f : Node → Node} (tidy : r.Tidy d busy)
    (keep : ∀ n : Node, n.Keeps (f n))
    (kind : ∀ n, (f n).kind = n.kind) (children : ∀ n, (f n).children = n.children)
    (visited : ∀ n, (f n).visited = n.visited) : (r.onGraph fun g => g.modify i f).Tidy d busy where
  orderly := tidy.orderly.modify (keep _) (children _)
  extent := tidy.extent
  settled {o} inside done idle := by
    have seed : ∀ n, (f n).seed = n.seed := fun n => by
      rw [Node.seed, kind, (keep n).name, (keep n).discriminant, (keep n).scope, (keep n).schema]
      rfl
    have site := tidy.orderly.site_modify (i := i) seed kind (fun n => (keep n).parent) children
    obtain ⟨inside, done⟩ := Graph.NoNew.modify visited inside done
    change Settles (fun n => ((r.graph.modify i f).site o).children d n)
      (.ok (((r.graph.modify i f).node o).children.map (r.graph.modify i f).site))
    rw [site, funext site, Graph.part_modify Node.children children]
    exact tidy.settled inside done idle

theorem Tidy.of_same {busy : Set Nat} (tidy : r.Tidy d busy) (graph : s.graph = r.graph)
    (extent : s.extent = r.extent) : s.Tidy d busy :=
  ⟨graph ▸ tidy.orderly, extent.trans tidy.extent, graph ▸ tidy.settled⟩

/-- The course of runs in which every visited node has its children. -/
def tidy (d : Document) : Course d where
  holds := Tidy d ∅
  along r s := r.Tidy d ∅ → s.Tidy d ∅
  preorder := { refl := fun _ => id, trans := fun _ _ _ first second => second ∘ first }
  keeps along := along
  registry notes extent tidy := tidy.of_same notes.graph extent
  visit {r s i} tidy h _ := by
    by_cases inside : i < r.graph.size
    · obtain ⟨_, -, unfolds⟩ := (Build.visit_unfolds tidy inside).ends h
      exact unfolds.tidy
    · have visited : (r.graph.node i).visited = true := by
        rw [Graph.node_of_size_le (Nat.le_of_not_lt inside)]
        rfl
      obtain ⟨-, rfl⟩ := (Build.ends_visit_of_visited visited).unique h
      exact tidy

instance : (tidy d).Bookless := ⟨fun graph extent _ _ tidy => tidy.of_same graph extent⟩

def tidying (d : Document) : OpenRegime d where
  toCourse := tidy d
  consolidate _ := Build.coming_consolidate_of (S := tidy d)
    (fun _ tidy => tidy.modify (fun n => { Node.Keeps.refl n with consolidated := fun _ => rfl })
      (fun _ => rfl) (fun _ => rfl) fun _ => rfl)
    fun _ _ tidy => tidy.modify (fun n => { Node.Keeps.refl n with })
      (fun _ => rfl) (fun _ => rfl) fun _ => rfl
  frames tidy := ⟨tidy.orderly, tidy.extent, tidy.settled⟩

theorem ofDocument_tidy (d : Document) : (Run.ofDocument d).Tidy d ∅ where
  orderly := (Graph.ofDocument_forest d).orderly (Graph.ofDocument_lineal d)
  extent := rfl
  settled {o} inside visited := by
    rw [show ((Run.ofDocument d).graph.node o).visited = false from
      (Graph.unvisited_ofDocument d o inside).2] at visited
    cases visited

/-- The runs that calls lead to when all of them succeed. -/
inductive Answered (d : Document) : Run → Prop
  | start : Answered d (.ofDocument d)
  | call {r s : Run} {u : Unit} (c : Call) (before : Answered d r) (ends : Ends (c.step d) r u s) :
    Answered d s

/-- Calls that are answered attain a run. -/
theorem Answered.attained (answered : r.Answered d) : r.Attained d := by
  induction answered with
  | start => exact .start
  | @call r s u c _ ends attained =>
    have run : (c.step d).run r = (.ok u, s) := ends
    have after : c.after d r = s := by rw [Call.after, run]
    exact after ▸ .call c attained

theorem Answered.after {c : Call} (answered : r.Answered d)
    (ends : Ends.passes (c.step d) r (fun _ _ => true) = true) : (c.after d r).Answered d := by
  obtain ⟨_, s, ends, -⟩ := Ends.of_passes ends
  have run : (c.step d).run r = (.ok _, s) := ends
  rw [Call.after, run]
  exact answered.call c ends

/-- After calls that are all answered the run is tidy. -/
theorem Answered.tidy (answered : r.Answered d) : r.Tidy d ∅ := by
  induction answered with
  | start => exact ofDocument_tidy d
  | call c _ ends tidy => exact (c.coming (S := tidying d) tidy).ends ends tidy

theorem Attained.grown (attained : r.Attained d) : (Graph.ofDocument d).Extends r.graph := by
  induction attained with
  | start => exact .refl _
  | call c before grown =>
    exact grown.trans (c.after_along (S := growing d) before.kept.holds).grown

/-- What the leaves that a path selects are read off from. -/
structure Steady (d : Document) (r : Run) : Prop where
  tidy : r.Tidy d ∅
  kept : r.Kept d
  grown : (Graph.ofDocument d).Extends r.graph

/-- After calls that are all answered the run is steady. -/
theorem Answered.steady (answered : r.Answered d) : r.Steady d :=
  ⟨answered.tidy, answered.attained.kept, answered.attained.grown⟩

/-- The run goes on in visits. -/
structure Goes (d : Document) (r s : Run) : Prop where
  steady : s.Steady d
  grows : r.graph.Grows r.graph.pending s.graph

namespace Goes

theorem refl (steady : r.Steady d) : r.Goes d r := ⟨steady, .refl _ _⟩

theorem trans (first : r.Goes d s) (second : s.Goes d t) : r.Goes d t :=
  ⟨second.steady, first.grows.trans second.grows first.grows.pending⟩

theorem site (goes : r.Goes d s) (steady : r.Steady d) (inside : i < r.graph.size) :
    s.graph.site i = r.graph.site i :=
  goes.grows.site steady.tidy.orderly (fun _ => Graph.notMem_pending_of_eager) inside

theorem sites (goes : r.Goes d s) (steady : r.Steady d) {l : List Nat}
    (inside : ∀ i ∈ l, i < r.graph.size) : l.map s.graph.site = l.map r.graph.site :=
  List.map_congr_left fun i mem => goes.site steady (inside i mem)

end Goes

end Run

/-! ## Paths -/

namespace Build

variable {w : Wildcard} {p : SelectionPath} {depth : Nat} {none : Fault → Prop}

/-- The nodes stand at the sites, in a run that goes on from another. -/
structure StandAt (d : Document) (r : Run) (sites : List Site) (nodes : List Nat) (s : Run) :
    Prop where
  goes : r.Goes d s
  inside : ∀ i ∈ nodes, i < s.graph.size
  sites : nodes.map s.graph.site = sites

theorem StandAt.refl (steady : r.Steady d) : StandAt d r [] [] r :=
  ⟨.refl steady, fun _ mem => absurd mem List.not_mem_nil, rfl⟩

/-- Nodes that stand at sites may be listed one after the other. -/
theorem StandAt.append {sites sites' : List Site} {nodes nodes' : List Nat}
    (first : StandAt d r sites nodes s) (second : StandAt d s sites' nodes' t) :
    StandAt d r (sites ++ sites') (nodes ++ nodes') t where
  goes := first.goes.trans second.goes
  inside i mem := (List.mem_append.mp mem).elim
    (fun mem => (first.inside i mem).trans_le second.goes.grows.size_le) (second.inside i)
  sites := by
    rw [List.map_append, second.goes.sites first.goes.steady first.inside, first.sites,
      second.sites]

/-- The children of a visited node stand where its site says. -/
theorem visit_stand (steady : r.Steady d) (inside : i < r.graph.size) :
    Yields none (visit d i) r (fun n => (r.graph.site i).children d n)
      fun sites _ s => StandAt d r sites (s.graph.node i).children s := by
  have unfolds : Yields none (visit d i) r _ _ :=
    (visit_unfolds steady.tidy inside).of_lasts (lasts_visit steady.kept.bounded)
  refine ⟨fun h => ?_, unfolds.fails⟩
  obtain ⟨sites, settles, unfolds⟩ := unfolds.ends h
  have kept := (Run.keeping d).keeps ((Run.keeping d).visit steady.kept h) steady.kept
  exact ⟨sites, settles, ⟨⟨unfolds.tidy, kept, steady.grown.trans unfolds.grows.toExtends⟩,
    unfolds.grows⟩, fun c child => (unfolds.tidy.orderly.below child).2, unfolds.sites⟩

/-- The children that are asked for stand where the site says. -/
theorem childrenOf_stand (steady : r.Steady d) (inside : i < r.graph.size) :
    Yields none (childrenOf d i) r (fun n => (r.graph.site i).children d n) (StandAt d r) :=
  (visit_stand steady inside).andThen fun {_ _ s} stand => ⟨_, s, Ends.bind_iff.mpr ⟨_, s,
    ends_node.mpr ⟨rfl, rfl⟩, Ends.pure_iff.mpr ⟨rfl, rfl⟩⟩, stand⟩

/-- Whether a wildcard enters a child is said by its seed. -/
@[simp] theorem entersChild_seed (n : Node) (count : Nat) :
    entersChild w (n.seed.node count) = entersChild w n := by
  have leaf : (n.seed.node count).isLeaf = n.isLeaf := Kind.isLeaf_unaimed n.kind
  unfold entersChild
  rw [leaf]
  cases kind : n.kind <;> simp only [Seed.node, Node.seed, kind, Kind.unaimed]

/-- The leaves below the children that are entered, when those below each child are known. -/
theorem collectFrom_stand {below : Nat → Build (List Nat)}
    {leaves : Nat → Site → Except Fault (List Site)} {children : List Nat}
    (each : ∀ {c s}, s.Steady d → c < s.graph.size →
      Yields none (below c) s (fun n => leaves n (s.graph.site c)) (StandAt d s))
    (steady : r.Steady d) (inside : ∀ c ∈ children, c < r.graph.size) (count : Nat) :
    Yields none (leavesWithin.collectFrom w below children) r
      (fun n => Site.gather (fun _ c =>
        if entersChild w (c.seed.node 0) then leaves n c else .ok [])
        count (children.map r.graph.site)) (StandAt d r) := by
  induction children generalizing r count with
  | nil => exact .pure (.refl steady)
  | cons c rest ih =>
    have here := inside c List.mem_cons_self
    have entered : entersChild w ((r.graph.site c).seed.node 0) = entersChild w (r.graph.node c) :=
      entersChild_seed _ 0
    have after : ∀ {sites found s}, StandAt d r sites found s →
        Yields none (do
            let more ← leavesWithin.collectFrom w below rest
            return found ++ more) s
          (fun n => do
            let more ← Site.gather (fun _ c =>
              if entersChild w (c.seed.node 0) then leaves n c else .ok [])
              (count + sites.length) (rest.map r.graph.site)
            return sites ++ more) (StandAt d r) := fun {sites _ s} first => by
      have old : ∀ x ∈ rest, x < r.graph.size := fun x mem => inside x (List.mem_cons_of_mem c mem)
      have later := ih first.goes.steady
        (fun x mem => (old x mem).trans_le first.goes.grows.size_le) (count + sites.length)
      rw [first.goes.sites steady old] at later
      exact later.bind fun _ second => .pure (first.append second)
    refine .after (ends_node.mpr ⟨rfl, rfl⟩) ?_
    simp only [List.map_cons, Site.gather, entered]
    split
    · exact (each steady here).bind fun _ first => after first
    · exact (Yields.pure (.refl steady)).bind fun _ first => after first

/-- The leaves below a node stand where the site says. -/
theorem leavesWithin_stand (steady : r.Steady d) (inside : i < r.graph.size) :
    Yields none (leavesWithin d w depth i) r (fun n => (r.graph.site i).leaves d w n depth)
      (StandAt d r) := by
  induction depth generalizing r i with
  | zero => exact .throw
  | succ depth ih =>
    have leaf : (r.graph.site i).seed.kind.isLeaf = (r.graph.node i).isLeaf :=
      Kind.isLeaf_unaimed _
    refine .after (ends_node.mpr ⟨rfl, rfl⟩) ?_
    simp only [Site.leaves, leaf]
    split
    · exact .pure ⟨.refl steady, fun j mem => List.mem_singleton.mp mem ▸ inside, rfl⟩
    · refine (childrenOf_stand steady inside).bind fun {children sites s} _ first => ?_
      have below := collectFrom_stand (w := w) (fun steady inside => ih steady inside)
        first.goes.steady first.inside 0
      rw [first.sites] at below
      exact below.imp fun second => ⟨first.goes.trans second.goes, second.inside, second.sites⟩

/-- A child is found by its id among the sites. -/
@[simp] theorem find?_map_site (g : Graph) (id : String) (l : List Nat) :
    Site.find? id (l.map g.site) = (l.find? fun c => g.idAt c == expand id).map g.site := by
  rw [Site.find?, List.find?_map]
  refine congrArg (Option.map g.site) (congrArg (l.find? ·) (funext fun c => ?_))
  exact congrArg (· == expand id) Graph.id_seedAt

@[simp] theorem ids_map_site (g : Graph) (l : List Nat) :
    Site.ids (l.map g.site) = l.map fun c => abbreviate (g.idAt c) := by
  rw [Site.ids, List.map_map]
  exact List.map_congr_left fun c _ => congrArg abbreviate Graph.id_seedAt

/-- The node that a path leads to stands where the sites on the way say. -/
theorem descend_stand {reached segments : List String} (steady : r.Steady d)
    (inside : i < r.graph.size) :
    Yields none (descend d p reached i segments) r
      (fun n => (r.graph.site i).descend d p n reached segments)
      fun site j s => StandAt d r [site] [j] s := by
  induction segments generalizing reached r i with
  | nil => exact .pure ⟨.refl steady, fun j mem => List.mem_singleton.mp mem ▸ inside, rfl⟩
  | cons segment rest ih =>
    refine (visit_stand steady inside).bind fun {_ sites s} _ first => ?_
    refine .after (ends_graph.mpr ⟨rfl, rfl⟩) ?_
    have found := find?_map_site s.graph segment (s.graph.node i).children
    have ids := ids_map_site s.graph (s.graph.node i).children
    rw [first.sites] at found ids
    rw [found, ids, Graph.findChild?]
    cases here : (s.graph.node i).children.find? fun c => s.graph.idAt c == expand segment with
    | none => exact .throw
    | some c =>
      have child := first.inside c (List.mem_of_find?_eq_some here)
      exact (ih first.goes.steady child).imp fun second =>
        ⟨first.goes.trans second.goes, second.inside, second.sites⟩

end Build

namespace Run.Steady

/-- The roots stand at the operations of the description. -/
theorem sites_roots (steady : r.Steady d) : r.graph.roots.map r.graph.site = d.rootSites := by
  rw [steady.grown.roots, Document.rootSites]
  refine List.map_congr_left fun i root => ?_
  have inside := (Graph.ofDocument_rooted d).inside i root
  have keeps := steady.grown.keeps inside
  obtain ⟨operation, -⟩ := Graph.unvisited_ofDocument d i inside
  have kind : (r.graph.node i).kind = ((Graph.ofDocument d).node i).kind := by
    refine keeps.kind.eq_of_not_isProperty ?_
    cases same : ((Graph.ofDocument d).node i).kind <;> rw [same] at operation <;>
      first | rfl | cases operation
  have parent := keeps.parent.trans (((Graph.ofDocument_rooted d).top inside).mpr root)
  rw [Graph.site, Graph.ancestors_of_root parent, Graph.innerOf_of_late]
  · refine Site.ext rfl ?_ rfl
    change (r.graph.node i).seed = _
    rw [Node.seed, Node.seed, kind, keeps.name, keeps.discriminant, keeps.scope, keeps.schema]
  · exact Kind.isEager_of_operation (kind ▸ operation)

end Run.Steady

namespace Build

variable {w : Wildcard} {p : SelectionPath} {depth : Nat} {none : Fault → Prop}

/-- **A path resolves to a node at the site that the document gives it.** -/
theorem resolve_stand (steady : r.Steady d) :
    Yields none (resolve d p) r (fun n => d.resolve p n)
      fun site i s => StandAt d r [site] [i] s := by
  have found := fun id => find?_map_site r.graph id r.graph.roots
  have ids := ids_map_site r.graph r.graph.roots
  rw [steady.sites_roots] at ids
  unfold resolve Document.resolve
  refine .after (ends_graph.mpr ⟨rfl, rfl⟩) ?_
  rw [ids]
  cases p.segments with
  | nil => exact .throw
  | cons first rest =>
    have found := find?_map_site r.graph first r.graph.roots
    rw [steady.sites_roots] at found
    dsimp only
    rw [found, Graph.findRoot?]
    cases here : r.graph.roots.find? fun c => r.graph.idAt c == expand first with
    | none => exact .throw
    | some root =>
      have inside := steady.kept.firm.graph.rooted.inside root (List.mem_of_find?_eq_some here)
      exact descend_stand steady inside

def leafTexts (d : Document) (p : SelectionPath) : Build (List String) := do
  let leaves ← resolveLeaves d p
  let g ← graph
  return leaves.map g.pathOf

/-- The same, for leaves less than some depth below the node that the path leads to. -/
def leafTextsWithin (d : Document) (p : SelectionPath) (depth : Nat) : Build (List String) := do
  let target ← resolve d p
  let leaves ← leavesWithin d (p.wildcard.getD .deep) depth target
  let g ← graph
  return leaves.map g.pathOf

/-- The texts of leaves are those of the sites that the document gives. -/
theorem leafTextsWithin_yields (steady : r.Steady d) (depth : Nat) :
    Yields none (leafTextsWithin d p depth) r (fun n => d.leaves p depth n)
      fun sites texts _ => texts = sites.map Site.path := by
  unfold leafTextsWithin Document.leaves
  refine (resolve_stand steady).bind fun {i site s} _ target => ?_
  have inside := target.inside i (List.mem_singleton_self i)
  rw [← List.cons.inj target.sites |>.1]
  refine (leavesWithin_stand target.goes.steady inside).andThen fun {sites leaves t} stand =>
    ⟨_, t, Ends.bind_iff.mpr ⟨_, t, ends_graph.mpr ⟨rfl, rfl⟩, Ends.pure_iff.mpr ⟨rfl, rfl⟩⟩, ?_⟩
  rw [← stand.sites, List.map_map]
  exact List.map_congr_left fun i _ => Graph.path_site.symm

/-- All leaves are the leaves within some depth. -/
theorem leafTexts_within (d : Document) (p : SelectionPath) (r : Run) :
    ∃ depth, (leafTexts d p).run r = (leafTextsWithin d p depth).run r := by
  have below : ∀ w i (s : Run),
      (leavesBelow d i w).run s = (leavesWithin d w s.reach i).run s := fun _ _ _ =>
    Ends.run_bind_of_ends (Ends.get_iff.mpr ⟨rfl, rfl⟩)
  refine ⟨((resolve d p).run r).2.reach, ?_⟩
  unfold leafTexts leafTextsWithin resolveLeaves
  rw [bind_assoc, Ends.run_bind, Ends.run_bind]
  rcases (resolve d p).run r with ⟨e | target, s⟩
  · rfl
  · dsimp only
    cases p.wildcard with
    | none => rw [Ends.run_bind, below, ← Ends.run_bind, Option.getD_none]
    | some w => rw [Ends.run_bind, below, ← Ends.run_bind, Option.getD_some]

end Build

/-! ## Depth -/

namespace Site

variable {w : Wildcard} {fuel depth depth' : Nat}

/-- Children that are given up by neither way of gathering are the same for both. -/
theorem gather_deeper {α : Type} {step step' : Nat → α → Except Fault (List Site)} {xs : List α}
    {count : Nat} (same : ∀ count x, step count x ≠ .error .depth → step' count x = step count x)
    (found : gather step count xs ≠ .error .depth) :
      gather step' count xs = gather step count xs := by
  induction xs generalizing count with
  | nil => rfl
  | cons x rest ih =>
    unfold gather at found ⊢
    rw [same count x fun gave => found (by rw [gave]; rfl)]
    cases here : step count x with
    | error e => rfl
    | ok more =>
      rw [here] at found
      change gather step (count + more.length) rest >>= _ ≠ _ at found
      change gather step' (count + more.length)
        rest >>= _ = gather step (count + more.length) rest >>= _
      rw [ih fun gave => found (by rw [gave]; rfl)]

/-- Leaves that are found are found from any greater depth on. -/
theorem leaves_deeper {s : Site} (le : depth ≤ depth')
    (found : s.leaves d w fuel depth ≠ .error .depth) :
    s.leaves d w fuel depth' = s.leaves d w fuel depth := by
  induction depth generalizing s depth' with
  | zero => exact absurd rfl found
  | succ depth ih =>
    obtain ⟨deeper, rfl⟩ : ∃ k, depth' = k + 1 := Nat.exists_eq_add_one.mpr (Nat.zero_lt_of_lt le)
    unfold leaves at found ⊢
    split
    · rfl
    · next inner =>
      rw [if_neg inner] at found
      cases children : s.children d fuel with
      | error e => rfl
      | ok cs =>
        rw [children] at found
        refine gather_deeper (fun count c found => ?_) found
        split
        · next enters =>
          rw [if_pos enters] at found
          exact ih (Nat.le_of_succ_le_succ le) found
        · rfl

end Site

/-- The leaves that a document gives do not hang on the depth. -/
theorem Document.leaves_deeper {p : SelectionPath} {fuel depth depth' : Nat} (le : depth ≤ depth')
    (found : d.leaves p depth fuel ≠ .error .depth) :
    d.leaves p depth' fuel = d.leaves p depth fuel := by
  unfold leaves at found ⊢
  cases here : d.resolve p fuel with
  | error e => rfl
  | ok target =>
    rw [here] at found
    exact Site.leaves_deeper le found

namespace Run

/-- Leaves that are found within some depth are found from any greater depth on. -/
theorem Steady.leafTexts_deeper (steady : r.Steady d) {p : SelectionPath} {depth depth' : Nat}
    (le : depth ≤ depth') (lasts : Lasts (Build.leafTextsWithin d p depth) r) :
    ((Build.leafTextsWithin d p depth).run r).1 = ((Build.leafTextsWithin d p depth').run r).1 :=
  ((Build.leafTextsWithin_yields steady depth).further lasts fun _ =>
    Document.leaves_deeper le).outcome (Build.leafTextsWithin_yields steady depth')

/-- As long as no call fails, the leaves that a path selects, in their order, and the fault that
keeps it from selecting any are those of the first run: within every depth, and so all of them if
they come to an end. -/
theorem Answered.leafTexts_eq (answered : r.Answered d) (p : SelectionPath) :
    (∀ depth, ((Build.leafTextsWithin d p depth).run r).1 =
      ((Build.leafTextsWithin d p depth).run (.ofDocument d)).1) ∧
    (Lasts (Build.leafTexts d p) (.ofDocument d) →
      Settles (fun depth => ((Build.leafTextsWithin d p depth).run r).1)
        ((Build.leafTexts d p).run (.ofDocument d)).1 ∧
      (Lasts (Build.leafTexts d p) r →
        ((Build.leafTexts d p).run r).1 = ((Build.leafTexts d p).run (.ofDocument d)).1)) := by
  have start : (Run.ofDocument d).Steady d := Answered.start.steady
  have within : ∀ depth, ((Build.leafTextsWithin d p depth).run r).1 =
      ((Build.leafTextsWithin d p depth).run (.ofDocument d)).1 := fun depth =>
    (Build.leafTextsWithin_yields answered.steady depth).outcome
      (Build.leafTextsWithin_yields start depth)
  refine ⟨within, fun lasts => ?_⟩
  obtain ⟨depth, all⟩ := Build.leafTexts_within d p (.ofDocument d)
  rw [Lasts, all] at lasts
  rw [all]
  refine ⟨⟨depth, fun deeper le => ?_⟩, fun lasts' => ?_⟩
  · exact (within deeper).trans (start.leafTexts_deeper le lasts).symm
  · obtain ⟨depth', all'⟩ := Build.leafTexts_within d p r
    rw [Lasts, all'] at lasts'
    rw [all', answered.steady.leafTexts_deeper (Nat.le_max_right depth depth') lasts',
      start.leafTexts_deeper (Nat.le_max_left depth depth') lasts, within]

/-- The leaf below the response, when all leaves of the operation were found before. -/
theorem chained_leafTexts : ∃ r : Run, r.Answered .chained ∧ r.graph.size = 6 ∧
    ((Build.leafTexts .chained ⟨["get:/a", "res:200"], some .deep⟩).run r).1 =
      ((Build.leafTexts .chained ⟨["get:/a", "res:200"], some .deep⟩).run
        (.ofDocument .chained)).1 := by
  have all : Ends.passes ((Call.wildcard 0 .deep).step .chained) (.ofDocument .chained)
      (fun _ r => r.graph.size == 6 &&
        Ends.passes (Build.leafTexts .chained ⟨["get:/a", "res:200"], some .deep⟩) r
          fun texts _ => texts.length == 1) = true := by decide +kernel
  have first : Ends.passes (Build.leafTexts .chained ⟨["get:/a", "res:200"], some .deep⟩)
      (.ofDocument .chained) (fun texts _ => texts.length == 1) = true := by decide +kernel
  obtain ⟨_, r, ends, found⟩ := Ends.of_passes all
  obtain ⟨size, again⟩ := Bool.and_eq_true_iff.mp found
  obtain ⟨_, _, first, -⟩ := Ends.of_passes first
  obtain ⟨_, _, again, -⟩ := Ends.of_passes again
  have answered : r.Answered .chained := .call _ .start ends
  exact ⟨r, answered, beq_iff_eq.mp size,
    ((answered.leafTexts_eq _).2 (.of_ends first)).2 (.of_ends again)⟩

end Run

end RestGraph
