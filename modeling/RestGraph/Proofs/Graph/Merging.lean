import Mathlib.Data.List.Perm.Basic
import RestGraph.Graph.Consolidate
import RestGraph.Proofs.Graph.Visiting

/-!
# Merging

A composition that is merged gets the fields of the objects below it. Whoever is merged covers its
branches, and the branches stay as they are.
-/

namespace RestGraph

variable {d : Document} {r r' s t : Run} {a b c i : Nat}

namespace Graph

variable {busy : Set Nat} {g h : Graph}

theorem Branch.mem_ancestors (sound : g.Sound) (branch : g.Branch a b) : a ∈ g.ancestors b := by
  have child : ∀ {a b}, g.Edge a b → a ∈ g.ancestors b := fun edge =>
    sound.ancestors_of_child edge.2 ▸ List.mem_cons_self
  induction branch with
  | single edge => exact child edge
  | tail _ edge ih => exact mem_ancestors_trans ih (child edge)

theorem Branch.lt_size (sound : g.Sound) (branch : g.Branch a b) : b < g.size :=
  lt_size_of_mem_ancestors (branch.mem_ancestors sound)

/-- Below visited nodes no other branches come up. -/
theorem Branch.of_grows (step : g.Grows g.unvisited h) (sound : g.Sound) (lt : a < g.size)
    (visited : (g.node a).visited = true)
    (below : ∀ b, g.Branch a b → (g.node b).visited = true) (branch : h.Branch a b) :
    g.Branch a b := by
  have edge : ∀ {x y}, x < g.size → (g.node x).visited = true → h.Edge x y → g.Edge x y :=
    fun lt visited edge =>
    ⟨step.kind lt ▸ edge.1, step.children lt (notMem_unvisited.mpr visited) ▸ edge.2⟩
  induction branch with
  | single e => exact .single (edge lt visited e)
  | tail _ e ih => exact ih.tail (edge (ih.lt_size sound) (below _ ih) e)

/-- Where no child and no kind is changed, the branches stay. -/
theorem Branch.of_modify {f : Node → Node} (children : ∀ n, (f n).children = n.children)
    (kind : ∀ n, (f n).kind = n.kind) (branch : (g.modify i f).Branch a b) : g.Branch a b := by
  refine Relation.TransGen.mono (fun x y edge => ?_) _ _ branch
  exact ⟨part_modify Node.kind kind x ▸ edge.1, part_modify Node.children children x ▸ edge.2⟩

end Graph

/-- The composition has the fields of all objects below it and no others, and no branch is left to
visit. Where a filter is set, fields that it does not allow may be missing. -/
structure Run.Covers (r : Run) (c : Nat) : Prop where
  visited : (r.graph.node c).visited = true
  branches : ∀ b, r.graph.Branch c b → (r.graph.node b).visited = true
  fields : ∀ b, r.graph.Branch c b → (r.graph.node b).kind.tag = .object →
    ∀ x ∈ (r.graph.node b).props, (∀ f, r.filter = some f → f.allows (r.graph.pathOf x.2) = true) →
      x.1 ∈ (r.graph.node c).props.map Prod.fst
  origin : ∀ x ∈ (r.graph.node c).props, ∃ b, r.graph.Branch c b ∧
    (r.graph.node b).kind.tag = .object ∧ x ∈ (r.graph.node b).props

namespace Run.Covers

/-- What a merged node covers it covers after growth. -/
theorem after (covers : r.Covers c) (lt : c < r.graph.size) (sound : r.graph.Sound)
    (grows : r.graph.Grows r.graph.unvisited s.graph) (filter : s.filter = r.filter)
    (merged : (r.graph.node c).isMerged = true) : s.Covers c := by
  have back : ∀ {b}, s.graph.Branch c b → r.graph.Branch c b := fun branch =>
    branch.of_grows grows sound lt covers.visited covers.branches
  refine ⟨(grows.keeps lt).visited covers.visited, fun b branch => ?_,
    fun b branch object x hx allowed => ?_, fun x hx => ?_⟩
  · exact (grows.keeps ((back branch).lt_size sound)).visited (covers.branches b (back branch))
  · have branch := back branch
    have old := branch.lt_size sound
    have visited := covers.branches b branch
    rw [grows.kind old] at object
    rw [grows.props old (Graph.notMem_unvisited.mpr visited) (Node.isMerged_of_object object)] at hx
    rw [grows.props lt (Graph.notMem_unvisited.mpr covers.visited) merged]
    refine covers.fields b branch object x hx fun f set => ?_
    rw [← grows.pathOf (Graph.lt_size_of_mem_ancestors (sound.fields hx).above)]
    exact allowed f (filter.trans set)
  · rw [grows.props lt (Graph.notMem_unvisited.mpr covers.visited) merged] at hx
    obtain ⟨b, branch, object, field⟩ := covers.origin x hx
    have old := branch.lt_size sound
    refine ⟨b, branch.extend grows.toExtends, (congrArg Kind.tag (grows.kind old)).trans object, ?_⟩
    rwa [grows.props old (Graph.notMem_unvisited.mpr (covers.branches b branch))
      (Node.isMerged_of_object object)]

end Run.Covers

/-- Every composition that was merged is complete. -/
def Run.Complete (r : Run) : Prop :=
  ∀ c, (r.graph.node c).kind.isComposition = true → (r.graph.node c).consolidated = true →
    r.Covers c

/-- What the steps of a generator do to the run underneath: nodes are visited, and compositions
merged. -/
structure Run.Drafts (d : Document) (r s : Run) : Prop where
  moves : r.graph.Moves d s.graph
  grows : r.graph.Grows r.graph.unvisited s.graph
  filled : ∀ {o}, r.graph.FilledAt o → s.graph.FilledAt o
  served : ∀ {o}, r.graph.ServedAt o → s.graph.ServedAt o
  complete : r.graph.Sound → r.Complete → s.Complete
  stack : s.stack = r.stack
  filter : s.filter = r.filter
  extent : s.extent = r.extent

namespace Run

theorem Visits.complete (visits : r.Visits d s) (sound : r.graph.Sound) (complete : r.Complete) :
    s.Complete := by
  intro c composition consolidated
  have lt : c < s.graph.size := Graph.lt_size_of_ne fun e => by
    rw [e] at composition
    cases composition
  obtain ⟨old, consolidated⟩ := visits.unmerged lt consolidated
  rw [visits.grows.kind old] at composition
  have merged : (r.graph.node c).isMerged = true := by
    rw [Node.isMerged, consolidated, Bool.or_true]
  exact (complete c composition consolidated).after old sound visits.grows visits.filter merged

theorem Visits.drafts (visits : r.Visits d s) : r.Drafts d s :=
  { visits with complete := visits.complete }

namespace Drafts

theorem refl (d : Document) (r : Run) : Drafts d r r := (Visits.refl d r).drafts

theorem trans (first : Drafts d r s) (second : Drafts d s t) : Drafts d r t where
  moves := first.moves.trans second.moves
  grows := first.grows.trans second.grows fun _ lt => first.grows.unvisited lt
  filled := second.filled ∘ first.filled
  served := second.served ∘ first.served
  complete sound := second.complete (sound.moves first.moves) ∘ first.complete sound
  stack := second.stack.trans first.stack
  filter := second.filter.trans first.filter
  extent := second.extent.trans first.extent

theorem sound (drafts : Drafts d r s) (sound : r.graph.Sound) : s.graph.Sound :=
  sound.moves drafts.moves

end Drafts

end Run

@[simp] theorem Kind.expands_of_isComposition {k : Kind} (composition : k.isComposition = true) :
    k.expands = true := by
  cases k <;> first | rfl | cases composition

/-- The branches that merging goes on with below a branch. -/
def Graph.branchesOn (g : Graph) (i : Nat) : List Nat :=
  if (g.node i).kind.expands then Build.branchesBelow g i else []

theorem Graph.edge_of_mem_branchesOn {g : Graph} (mem : b ∈ g.branchesOn a) : g.Edge a b := by
  unfold branchesOn at mem
  split at mem
  · next expands => exact ⟨expands, (List.mem_filter.mp mem).1⟩
  · cases mem

/-- Whether merging keeps requested fields only. -/
def Run.isFiltering (r : Run) : Bool :=
  r.filter.isSome && !r.inContextOf .body && !r.inContextOf .param

/-- Whether a run filters hangs on its filter and its stack. -/
theorem Run.isFiltering_congr {r s : Run} (filter : s.filter = r.filter)
    (stack : s.stack = r.stack) : s.isFiltering = r.isFiltering := by
  rw [isFiltering, isFiltering, inContextOf, inContextOf, inContextOf, inContextOf, filter, stack]

@[simp] theorem Run.isFiltering_absorb (r : Run) (i : Nat) (found : List Nat) :
    (r.absorb i found).isFiltering = r.isFiltering := rfl

@[simp] theorem Run.isFiltering_onGraph (r : Run) (f : Graph → Graph) :
    (r.onGraph f).isFiltering = r.isFiltering := rfl

def Run.marked (i : Nat) (r : Run) : Run :=
  r.onGraph fun g => g.modify i fun n => { n with consolidated := true }

/-- The run with the reference given back that the node is, if it is one. -/
def Run.released (i : Nat) (r : Run) : Run :=
  match (r.graph.node i).kind with
  | .reference pointer => r.releaseRef pointer
  | _ => r

/-- Nothing but the count of a pointer changes. -/
theorem Run.same_of_released {r s : Run} (released : s = r.released i) : s.graph = r.graph ∧
    s.stack = r.stack ∧ s.filter = r.filter ∧ s.extent = r.extent := by
  subst released
  unfold Run.released
  split
  · unfold releaseRef
    split <;> exact ⟨rfl, rfl, rfl, rfl⟩
  · exact ⟨rfl, rfl, rfl, rfl⟩

/-- A node with the fields that were gathered for it. -/
def Node.withProps (props : List (String × Nat)) (n : Node) : Node := { n with props }

/-- The fields of a composition are no matter for the objects. -/
theorem Graph.FilledAt.withProps {g : Graph} {o : Nat} {props : List (String × Nat)}
    (filled : g.FilledAt o) (other : (g.node i).kind.tag ≠ .object) :
    (g.modify i (Node.withProps props)).FilledAt o := by
  intro object
  rw [part_modify Node.kind (fun _ => by rfl)] at object
  have ne : o ≠ i := by
    rintro rfl
    exact other object
  rw [node_modify_of_ne ne, filled object]
  exact (fieldsAt_congr (part_modify Node.children (fun _ => by rfl) o)
    fun q _ => part_modify Node.name (fun _ => by rfl) q).symm

namespace Graph

variable {β : Type} {props own : List (String × β)} {x : String × β}

def addFields (props own : List (String × β)) : List (String × β) :=
  own.foldl (fun props x => if (props.lookup x.1).isNone then props ++ [x] else props) props

/-- A name that is not found is not among the keys. -/
@[simp] theorem isNone_lookup_iff {name : String} :
    (props.lookup name).isNone = true ↔ name ∉ props.map Prod.fst := by
  rw [Option.isNone_iff_eq_none, List.lookup_eq_none_iff, List.mem_map]
  simp only [bne_iff_ne]
  exact ⟨fun apart ⟨x, mem, same⟩ => apart x mem same.symm,
    fun new x mem same => new ⟨x, mem, same.symm⟩⟩

/-- A field is added under a new name only. -/
theorem mem_addFields (mem : x ∈ addFields props own) :
    x ∈ props ∨ x ∈ own ∧ x.1 ∉ props.map Prod.fst := by
  induction own generalizing props with
  | nil => exact .inl mem
  | cons y own ih =>
    rw [addFields, List.foldl_cons] at mem
    split at mem
    · next new =>
      rcases ih mem with mem | ⟨mem, other⟩
      · rcases List.mem_append.mp mem with mem | mem
        · exact .inl mem
        · obtain rfl := List.mem_singleton.mp mem
          exact .inr ⟨List.mem_cons_self, isNone_lookup_iff.mp new⟩
      · refine .inr ⟨List.mem_cons_of_mem y mem, fun taken => other ?_⟩
        rw [List.map_append]
        exact List.mem_append_left _ taken
    · exact (ih mem).imp_right fun ⟨mem, other⟩ => ⟨List.mem_cons_of_mem y mem, other⟩

theorem mem_addFields_of_mem (mem : x ∈ props) : x ∈ addFields props own := by
  induction own generalizing props with
  | nil => exact mem
  | cons y own ih =>
    rw [addFields, List.foldl_cons]
    split
    · exact ih (List.mem_append_left _ mem)
    · exact ih mem

/-- The names are those that were there and those that are added. -/
@[simp] theorem mem_keys_addFields {name : String} : name ∈ (addFields props own).map Prod.fst ↔
    name ∈ props.map Prod.fst ∨ name ∈ own.map Prod.fst := by
  induction own generalizing props with
  | nil => exact (or_iff_left List.not_mem_nil).symm
  | cons y own ih =>
    rw [addFields, List.foldl_cons]
    split
    · refine ih.trans ?_
      rw [List.map_append, List.map_singleton, List.mem_append, List.mem_singleton, List.map_cons,
        List.mem_cons, or_assoc]
    · next taken =>
      refine ih.trans ?_
      rw [isNone_lookup_iff, not_not] at taken
      rw [List.map_cons, List.mem_cons]
      refine ⟨Or.imp_right .inr, ?_⟩
      rintro (before | rfl | own)
      · exact .inl before
      · exact .inl taken
      · exact .inr own

theorem nodup_keys_addFields (keys : (props.map Prod.fst).Nodup) :
    ((addFields props own).map Prod.fst).Nodup := by
  induction own generalizing props with
  | nil => exact keys
  | cons y own ih =>
    rw [addFields, List.foldl_cons]
    split
    · next new =>
      refine ih ?_
      rw [List.map_append, List.map_singleton]
      exact List.nodup_append.mpr ⟨keys, List.nodup_singleton _, fun a ha b hb e =>
        isNone_lookup_iff.mp new (List.mem_singleton.mp hb ▸ e ▸ ha)⟩
    · exact ih keys

end Graph

namespace Build

/-- What merging has gathered for the composition `c`, with some nodes still to be taken in. -/
structure Gathered (d : Document) (c : Nat) (filtering : Bool) (r s : Run) (m : Merged)
    (pending : List Nat) : Prop where
  visits : r.Visits d s
  branches : ∀ b, b ∈ m.consumed ∨ b ∈ pending → s.graph.Branch c b
  visited : ∀ b ∈ m.consumed, (s.graph.node b).visited = true
  top : ∀ b, s.graph.Edge c b → b ∈ m.consumed ∨ b ∈ pending
  closed : ∀ a ∈ m.consumed, ∀ b, s.graph.Edge a b → b ∈ m.consumed ∨ b ∈ pending
  fields : ∀ x ∈ m.props, ∃ b ∈ m.consumed, x ∈ (s.graph.node b).props
  cover : ∀ b ∈ m.consumed, (s.graph.node b).kind.tag = .object →
    ∀ x ∈ (s.graph.node b).props, isAllowed s filtering x.2 = true → x.1 ∈ m.props.map Prod.fst
  keys : (m.props.map Prod.fst).Nodup

variable {filtering : Bool} {m m' : Merged} {own : List (String × Nat)} {pending : List Nat}

/-- Fields are added as `addProps` adds them, but for those that are not allowed. -/
@[simp]
theorem addProps_props (r : Run) (filtering : Bool) (own : List (String × Nat)) (m : Merged) :
    (addProps r filtering own m).props =
      Graph.addFields m.props (own.filter fun x => isAllowed r filtering x.2) := by
  rw [Graph.addFields, List.foldl_filter]
  refine List.foldl_ext _ _ _ fun props x _ => ?_
  simp only [Bool.and_eq_true, ite_and]

/-- Fields are added under new names only, and no allowed name is left out. -/
theorem addProps_spec (r : Run) (filtering : Bool) (own : List (String × Nat)) (m : Merged) :
    (∀ x ∈ (addProps r filtering own m).props, x ∈ m.props ∨ x ∈ own) ∧
    (∀ x ∈ m.props, x ∈ (addProps r filtering own m).props) ∧
    (∀ x ∈ own, isAllowed r filtering x.2 = true →
      x.1 ∈ (addProps r filtering own m).props.map Prod.fst) ∧
    ((m.props.map Prod.fst).Nodup → ((addProps r filtering own m).props.map Prod.fst).Nodup) := by
  rw [addProps_props]
  refine ⟨fun x mem => ?_, fun x => Graph.mem_addFields_of_mem, fun x mem allowed => ?_,
    Graph.nodup_keys_addFields⟩
  · exact (Graph.mem_addFields mem).imp_right fun found => (List.mem_filter.mp found.1).1
  · exact Graph.mem_keys_addFields.mpr
      (.inr (List.mem_map_of_mem (List.mem_filter.mpr ⟨mem, allowed⟩)))

/-- Growth leaves what the filter allows. -/
theorem isAllowed_after {free : Set Nat} (step : s.graph.Grows free t.graph)
    (filter : t.filter = s.filter) {prop : Nat} (lt : prop < s.graph.size) :
    isAllowed t filtering prop = isAllowed s filtering prop := by
  rw [isAllowed, isAllowed, filter, step.pathOf lt]

theorem Gathered.after_visit (gathered : Gathered d c filtering r s m pending)
    (sound : r.graph.Sound) (lt : c < r.graph.size) (visited : (r.graph.node c).visited = true)
    (visits : s.Visits d t) : Gathered d c filtering r t m pending := by
  have sound' := gathered.visits.sound sound
  have lt' := lt.trans_le gathered.visits.grows.size_le
  have visited' := (gathered.visits.grows.keeps lt).visited visited
  have old : ∀ {b}, b ∈ m.consumed → b < s.graph.size := fun hb =>
    (gathered.branches _ (.inl hb)).lt_size sound'
  have back : ∀ {a b}, a < s.graph.size → (s.graph.node a).visited = true → t.graph.Edge a b →
      s.graph.Edge a b := fun lt visited edge =>
    ⟨visits.grows.kind lt ▸ edge.1,
      visits.grows.children lt (Graph.notMem_unvisited.mpr visited) ▸ edge.2⟩
  constructor
  case visits => exact gathered.visits.trans visits
  case branches => exact fun b hb => (gathered.branches b hb).extend visits.grows.toExtends
  case visited => exact fun b hb => (visits.grows.keeps (old hb)).visited (gathered.visited b hb)
  case top => exact fun b edge => gathered.top b (back lt' visited' edge)
  case closed =>
    exact fun a ha b edge => gathered.closed a ha b (back (old ha) (gathered.visited a ha) edge)
  case fields =>
    intro x hx
    obtain ⟨b, hb, field⟩ := gathered.fields x hx
    refine ⟨b, hb, ?_⟩
    have merged : (s.graph.node b).isMerged = true := by
      by_contra unmerged
      rw [sound'.unmerged (Bool.not_eq_true _ ▸ unmerged)] at field
      cases field
    rwa [visits.grows.props (old hb) (Graph.notMem_unvisited.mpr (gathered.visited b hb)) merged]
  case cover =>
    intro b hb object x hx allowed
    rw [visits.grows.kind (old hb)] at object
    rw [visits.grows.props (old hb) (Graph.notMem_unvisited.mpr (gathered.visited b hb))
      (Node.isMerged_of_object object)] at hx
    rw [isAllowed_after visits.grows visits.filter
      (Graph.lt_size_of_mem_ancestors (sound'.fields hx).above)] at allowed
    exact gathered.cover b hb object x hx allowed
  case keys => exact gathered.keys

/-- A branch that was consumed is no longer pending. -/
theorem Gathered.drop (gathered : Gathered d c filtering r s m (i :: pending))
    (taken : i ∈ m.consumed) : Gathered d c filtering r s m pending where
  visits := gathered.visits
  branches b hb := gathered.branches b (hb.imp_right (List.mem_cons_of_mem _))
  visited := gathered.visited
  top b edge := (gathered.top b edge).elim .inl fun hb =>
    (List.mem_cons.mp hb).imp_left fun e => by rwa [e]
  closed a ha b edge := (gathered.closed a ha b edge).elim .inl fun hb =>
    (List.mem_cons.mp hb).imp_left fun e => by rwa [e]
  fields := gathered.fields
  cover := gathered.cover
  keys := gathered.keys

/-- The order of what is pending is no matter. -/
theorem Gathered.reorder {pending' : List Nat} (gathered : Gathered d c filtering r s m pending)
    (same : ∀ {b}, b ∈ pending ↔ b ∈ pending') : Gathered d c filtering r s m pending' where
  visits := gathered.visits
  branches b hb := gathered.branches b (hb.imp_right same.mpr)
  visited := gathered.visited
  top b edge := (gathered.top b edge).imp_right same.mp
  closed a ha b edge := (gathered.closed a ha b edge).imp_right same.mp
  fields := gathered.fields
  cover := gathered.cover
  keys := gathered.keys

theorem mem_branchesBelow {g : Graph} (sound : g.Sound) {a b : Nat} (edge : g.Edge a b) :
    b ∈ branchesBelow g a := by
  refine List.mem_filter.mpr ⟨edge.2, ?_⟩
  have admits := sound.admits edge.2
  have expands := edge.1
  rw [Node.isProperty]
  cases kind : (g.node a).kind <;> rw [kind] at admits expands <;> try cases expands
  all_goals
    cases kind' : (g.node b).kind <;> rw [kind'] at admits <;> first | rfl | cases admits

/-- A visited branch is taken in, and the branches below it are named. -/
theorem Gathered.takeIn (gathered : Gathered d c filtering r s m (i :: pending))
    (visited : (s.graph.node i).visited = true) {below : List Nat}
    (sub : ∀ b ∈ below, s.graph.Edge i b) (all : ∀ b, s.graph.Edge i b → b ∈ below) :
    Gathered d c filtering r s (addProps s filtering (s.graph.node i).props
      { m with consumed := m.consumed ++ [i] }) (below ++ pending) := by
  obtain ⟨from_, keep, cover, nodup⟩ := addProps_spec s filtering (s.graph.node i).props
    { m with consumed := m.consumed ++ [i] }
  have branch := gathered.branches i (.inr List.mem_cons_self)
  have shift : ∀ {b}, b ∈ m.consumed ∨ b ∈ i :: pending →
      b ∈ m.consumed ++ [i] ∨ b ∈ below ++ pending := fun hb => by
    rcases hb with hb | hb
    · exact .inl (List.mem_append_left _ hb)
    · rcases List.mem_cons.mp hb with rfl | hb
      · exact .inl (List.mem_append_right _ (List.mem_singleton_self _))
      · exact .inr (List.mem_append_right _ hb)
  constructor
  case visits => exact gathered.visits
  case branches =>
    intro b hb
    rcases hb with hb | hb
    · rcases List.mem_append.mp hb with hb | hb
      · exact gathered.branches b (.inl hb)
      · exact List.mem_singleton.mp hb ▸ branch
    · rcases List.mem_append.mp hb with hb | hb
      · exact branch.tail (sub b hb)
      · exact gathered.branches b (.inr (List.mem_cons_of_mem _ hb))
  case visited =>
    intro b hb
    rcases List.mem_append.mp hb with hb | hb
    · exact gathered.visited b hb
    · exact List.mem_singleton.mp hb ▸ visited
  case top => exact fun b edge => shift (gathered.top b edge)
  case closed =>
    intro a ha b edge
    rcases List.mem_append.mp ha with ha | ha
    · exact shift (gathered.closed a ha b edge)
    · rw [List.mem_singleton.mp ha] at edge
      exact .inr (List.mem_append_left _ (all b edge))
  case fields =>
    intro x hx
    rcases from_ x hx with hx | hx
    · obtain ⟨b, hb, field⟩ := gathered.fields x hx
      exact ⟨b, List.mem_append_left _ hb, field⟩
    · exact ⟨i, List.mem_append_right _ (List.mem_singleton_self _), hx⟩
  case cover =>
    intro b hb object x hx allowed
    rcases List.mem_append.mp hb with hb | hb
    · obtain ⟨y, hy, e⟩ := List.mem_map.mp (gathered.cover b hb object x hx allowed)
      exact List.mem_map.mpr ⟨y, keep y hy, e⟩
    · rw [List.mem_singleton.mp hb] at hx
      exact cover x hx allowed
  case keys => exact nodup gathered.keys

/-- A branch is passed over if it was taken in before. Otherwise it is visited, given back if it is
a reference, adds its fields and names the branches below it. -/
theorem mergeBranch_cases {below : List Nat}
    (h : Ends (mergeBranch d filtering m i) s (m', below) t) :
    (i ∈ m.consumed ∧ m' = m ∧ below = [] ∧ s = t) ∨
      (i ∉ m.consumed ∧ ∃ v, Ends (visit d i) s ⟨⟩ v ∧ t = v.released i ∧
        below = t.graph.branchesOn i ∧
          m' = addProps t filtering (t.graph.node i).props
            { m with consumed := m.consumed ++ [i] }) := by
  unfold mergeBranch at h
  split at h
  · next taken =>
    obtain ⟨e, rfl⟩ := Ends.pure_iff.mp h
    cases e
    exact .inl ⟨List.contains_iff_mem.mp taken, rfl, rfl, rfl⟩
  · next free =>
    simp only [Ends.bind_iff, ends_node] at h
    obtain ⟨_, v, visits, _, _, ⟨rfl, rfl⟩, h⟩ := h
    refine .inr ⟨fun taken => free (List.contains_iff_mem.mpr taken), v, visits, ?_⟩
    split at h
    · next pointer kind =>
      have released : v.released i = v.releaseRef pointer := by rw [Run.released, kind]
      have graph := (Run.same_of_released released.symm).1
      rw [released]
      simp only [Ends.bind_iff, Ends.modify_iff, Ends.get_iff, kind, Ends.pure_iff] at h
      obtain ⟨_, _, rfl, _, _, ⟨rfl, rfl⟩, e, rfl⟩ := h
      cases e
      refine ⟨rfl, ?_, ?_⟩
      · rw [Graph.branchesOn, graph, kind]
        rfl
      · rw [graph]
    · next plain =>
      have released : v.released i = v := by
        unfold Run.released
        split
        · next pointer kind => exact absurd kind (plain pointer)
        · rfl
      rw [released]
      simp only [Ends.bind_iff, Ends.get_iff] at h
      obtain ⟨_, _, ⟨rfl, rfl⟩, h⟩ := h
      have named : below = v.graph.branchesOn i ∧ m' = addProps v filtering (v.graph.node i).props
          { m with consumed := m.consumed ++ [i] } ∧ v = t := by
        split at h
        case h_4 reference composed union =>
          obtain ⟨e, rfl⟩ := Ends.pure_iff.mp h
          cases e
          refine ⟨?_, rfl, rfl⟩
          rw [Graph.branchesOn]
          cases kind : (v.graph.node i).kind with
          | reference pointer => exact absurd kind (reference pointer)
          | composed => exact absurd kind composed
          | union => exact absurd kind union
          | _ => rfl
        all_goals
          next kind =>
          obtain ⟨e, rfl⟩ := Ends.pure_iff.mp h
          cases e
          refine ⟨?_, rfl, rfl⟩
          rw [Graph.branchesOn, kind]
          rfl
      obtain ⟨below, merged, rfl⟩ := named
      exact ⟨rfl, below, merged⟩

theorem mergeBranch_gathers {below : List Nat}
    (h : Ends (mergeBranch d filtering m i) s (m', below) t)
    (gathered : Gathered d c filtering r s m (i :: pending)) (sound : r.graph.Sound)
    (lt : c < r.graph.size) (visited : (r.graph.node c).visited = true) :
    Gathered d c filtering r t m' (below ++ pending) := by
  obtain ⟨taken, rfl, rfl, rfl⟩ | ⟨-, v, here, released, rfl, rfl⟩ := mergeBranch_cases h
  · exact gathered.drop taken
  · obtain ⟨graph, stack, filter, extent⟩ := Run.same_of_released released
    obtain ⟨visits, done⟩ := visit_steps here (gathered.visits.sound sound)
    have gathered := (gathered.after_visit sound lt visited visits).after_visit sound lt visited
      (.of_same graph stack filter extent)
    have sound' := gathered.visits.sound sound
    refine gathered.takeIn (graph ▸ done) (fun b hb => ?_) fun b edge => ?_
    · exact Graph.edge_of_mem_branchesOn hb
    · rw [Graph.branchesOn, if_pos edge.1]
      exact mem_branchesBelow sound' edge

/-! ### Levels of branches -/

section Levels

variable {depth : Nat} {level below : List Nat}

/-- A level with no branches merges nothing. -/
theorem mergeLevel_nil (h : Ends (mergeLevel d filtering m []) s (m', below) t) :
    m' = m ∧ below = [] ∧ s = t := by
  rw [mergeLevel] at h
  obtain ⟨e, rfl⟩ := Ends.pure_iff.mp h
  cases e
  exact ⟨rfl, rfl, rfl⟩

/-- The first branch of a level is taken in before the others. -/
theorem mergeLevel_cons {rest : List Nat}
    (h : Ends (mergeLevel d filtering m (i :: rest)) s (m', below) t) : ∃ m₁ u first more,
      Ends (mergeBranch d filtering m i) s (m₁, first) u ∧
        Ends (mergeLevel d filtering m₁ rest) u (m', more) t ∧ below = first ++ more := by
  rw [mergeLevel] at h
  simp only [Ends.bind_iff, Ends.pure_iff] at h
  obtain ⟨⟨m₁, first⟩, u, branch, ⟨m₂, more⟩, v, others, e, rfl⟩ := h
  cases e
  exact ⟨m₁, u, first, more, branch, others, rfl⟩

/-- Merging is over at a level without branches, and goes on below one that has some. -/
theorem mergeLevels_cases (h : Ends (mergeLevels d filtering depth m level) s m' t) :
    (level = [] ∧ m' = m ∧ s = t) ∨
      ∃ k m₁ next u, depth = k + 1 ∧ level ≠ [] ∧
        Ends (mergeLevel d filtering m level) s (m₁, next) u ∧
          Ends (mergeLevels d filtering k m₁ next) u m' t := by
  cases level with
  | nil =>
    rw [mergeLevels] at h
    obtain ⟨rfl, rfl⟩ := Ends.pure_iff.mp h
    exact .inl ⟨rfl, rfl, rfl⟩
  | cons b rest =>
    cases depth with
    | zero => exact (Ends.throw_iff.mp h).elim
    | succ k =>
      obtain ⟨⟨m₁, next⟩, u, first, h⟩ := Ends.bind_iff.mp h
      exact .inr ⟨k, m₁, next, u, rfl, List.cons_ne_nil b rest, first, h⟩

section Keeping

variable {I : Merged → List Nat → Run → Prop}
  (reorder : ∀ {m l l' s}, l.Perm l' → I m l s → I m l' s)
  (step : ∀ {m m' i below pending s t}, Ends (mergeBranch d filtering m i) s (m', below) t →
    I m (i :: pending) s → I m' (below ++ pending) t)

include reorder step

/-- What every branch of a level keeps, the level keeps. -/
theorem mergeLevel_keeps (h : Ends (mergeLevel d filtering m level) s (m', below) t)
    (start : I m (level ++ pending) s) : I m' (below ++ pending) t := by
  induction level generalizing m s below pending with
  | nil =>
    obtain ⟨rfl, rfl, rfl⟩ := mergeLevel_nil h
    exact start
  | cons i rest ih =>
    obtain ⟨m₁, u, first, more, branch, others, rfl⟩ := mergeLevel_cons h
    have taken : I m₁ (rest ++ (first ++ pending)) u :=
      reorder (List.perm_append_comm_assoc _ _ _) (step branch start)
    rw [List.append_assoc]
    exact reorder (List.perm_append_comm_assoc _ _ _) (ih others taken)

/-- What stays true of the branches that are still to be taken in whenever one of them is, is true
of none in the end. -/
theorem mergeLevels_keeps (h : Ends (mergeLevels d filtering depth m level) s m' t)
    (start : I m level s) : I m' [] t := by
  induction depth generalizing m s level with
  | zero =>
    obtain ⟨rfl, rfl, rfl⟩ | ⟨_, _, _, _, none, -⟩ := mergeLevels_cases h
    · exact start
    · cases none
  | succ depth ih =>
    obtain ⟨rfl, rfl, rfl⟩ | ⟨_, m₁, next, u, same, -, first, h⟩ := mergeLevels_cases h
    · exact start
    · cases same
      have alone : I m (level ++ []) s := (List.append_nil level).symm ▸ start
      have taken : I m₁ (next ++ []) u := mergeLevel_keeps (I := I) reorder step first alone
      exact ih h (List.append_nil next ▸ taken)

end Keeping

/-- **Level by level, all that is pending is gathered.** -/
theorem mergeLevels_gathers (h : Ends (mergeLevels d filtering depth m level) s m' t)
    (gathered : Gathered d c filtering r s m level) (sound : r.graph.Sound)
    (lt : c < r.graph.size) (visited : (r.graph.node c).visited = true) :
    Gathered d c filtering r t m' [] :=
  mergeLevels_keeps (I := fun m pending s => Gathered d c filtering r s m pending)
    (fun same gathered => gathered.reorder same.mem_iff)
    (fun h gathered => mergeBranch_gathers h gathered sound lt visited) h gathered

end Levels

/-- In the end all branches have been taken in. -/
theorem Gathered.consumed_of_branch (gathered : Gathered d c filtering r s m [])
    (branch : s.graph.Branch c b) : b ∈ m.consumed := by
  induction branch with
  | single edge => exact (gathered.top _ edge).resolve_right List.not_mem_nil
  | tail _ edge ih => exact (gathered.closed _ ih _ edge).resolve_right List.not_mem_nil

/-- What was gathered are fields below the composition. -/
theorem Gathered.isField (gathered : Gathered d c filtering r s m pending) (sound : s.graph.Sound)
    {x : String × Nat} (hx : x ∈ m.props) : s.graph.IsField c x ∧ s.graph.Inherits c x := by
  obtain ⟨b, hb, field⟩ := gathered.fields x hx
  have branch := gathered.branches b (.inl hb)
  have below := sound.fields field
  refine ⟨{ below with above :=
    Graph.mem_ancestors_trans (branch.mem_ancestors sound) below.above }, ?_⟩
  cases composition : (s.graph.node b).kind.isComposition with
  | false => exact ⟨b, branch, sound.own composition field⟩
  | true =>
    obtain ⟨o, more, object⟩ := sound.inherited composition field
    exact ⟨o, branch.trans more, object⟩

/-- Asking for the filter changes nothing. -/
theorem ends_isFiltering {a : Bool} (h : Ends isFiltering r a r') : r = r' ∧ a = r.isFiltering := by
  unfold isFiltering at h
  simp only [Ends.bind_iff, Ends.get_iff, Ends.pure_iff] at h
  obtain ⟨_, _, ⟨rfl, rfl⟩, rfl, rfl⟩ := h
  exact ⟨rfl, rfl⟩

/-- What was gathered are fields of objects below the composition, when what was merged before is
complete. -/
theorem Gathered.origin (gathered : Gathered d c filtering r s m []) (sound : s.graph.Sound)
    (others : ∀ b, b ≠ c → (s.graph.node b).kind.isComposition = true →
      (s.graph.node b).consolidated = true → s.Covers b) {x : String × Nat} (hx : x ∈ m.props) :
    ∃ b, s.graph.Branch c b ∧ (s.graph.node b).kind.tag = .object ∧
      x ∈ (s.graph.node b).props := by
  obtain ⟨b, consumed, field⟩ := gathered.fields x hx
  have branch := gathered.branches b (.inl consumed)
  cases composition : (s.graph.node b).kind.isComposition with
  | false => exact ⟨b, branch, (sound.own composition field).1, field⟩
  | true =>
    have merged : (s.graph.node b).isMerged = true := by
      by_contra unmerged
      rw [sound.unmerged (Bool.not_eq_true _ ▸ unmerged)] at field
      cases field
    rw [Node.isMerged, composition, Bool.not_true, Bool.false_or] at merged
    have ne := Nat.ne_of_gt (Graph.lt_of_mem_ancestors (branch.mem_ancestors sound))
    obtain ⟨o, more, object, field⟩ := (others b ne composition merged).origin x field
    exact ⟨o, branch.trans more, object, field⟩

/-- The composition gets what was gathered, and covers its branches. -/
theorem Gathered.covers (gathered : Gathered d c filtering r s m []) (sound : s.graph.Sound)
    (lt : c < s.graph.size) (visited : (s.graph.node c).visited = true)
    (filters : filtering = true → s.filter.isSome = true)
    (others : ∀ b, b ≠ c → (s.graph.node b).kind.isComposition = true →
      (s.graph.node b).consolidated = true → s.Covers b) :
    ((s.onGraph fun g => g.modify c (Node.withProps (Text.sortByName Prod.fst m.props))).absorb c
      m.consumed).Covers c := by
  have back : ∀ {b}, (s.graph.modify c (Node.withProps (Text.sortByName Prod.fst m.props))).Branch
      c b → b ∈ m.consumed ∧ b ≠ c := by
    intro b branch
    have branch : s.graph.Branch c b := by
      refine branch.of_modify ?_ ?_ <;> exact fun _ => rfl
    have above := branch.mem_ancestors sound
    exact ⟨gathered.consumed_of_branch branch, Nat.ne_of_gt (Graph.lt_of_mem_ancestors above)⟩
  have grows : s.graph.Grows {c}
      (s.graph.modify c (Node.withProps (Text.sortByName Prod.fst m.props))) :=
    .modify { Node.Keeps.refl (s.graph.node c) with } rfl
  have perm : (Text.sortByName Prod.fst m.props).Perm m.props := Text.sortByName_perm _ _
  refine ⟨?_, fun b branch => ?_, fun b branch object x hx allowed => ?_, fun x hx => ?_⟩
  · change ((s.graph.modify c _).node c).visited = true
    rw [Graph.node_modify_self lt]
    exact visited
  · obtain ⟨consumed, ne⟩ := back branch
    change ((s.graph.modify c _).node b).visited = true
    rw [Graph.node_modify_of_ne ne]
    exact gathered.visited b consumed
  · obtain ⟨consumed, ne⟩ := back branch
    change ((s.graph.modify c _).node b).kind.tag = _ at object
    change x ∈ ((s.graph.modify c _).node b).props at hx
    change _ ∈ ((s.graph.modify c _).node c).props.map _
    rw [Graph.node_modify_of_ne ne] at object hx
    rw [Graph.node_modify_self lt]
    have path := grows.pathOf (Graph.lt_size_of_mem_ancestors (sound.fields hx).above)
    have permitted : isAllowed s filtering x.2 = true := by
      rw [isAllowed]
      cases filtering with
      | false => rfl
      | true =>
        obtain ⟨f, set⟩ := Option.isSome_iff_exists.mp (filters rfl)
        rw [set, Option.any_some, ← path]
        exact allowed f set
    have found := gathered.cover b consumed object x hx permitted
    exact (perm.map Prod.fst).mem_iff.mpr found
  · change x ∈ ((s.graph.modify c _).node c).props at hx
    rw [Graph.node_modify_self lt] at hx
    obtain ⟨b, branch, object, field⟩ := gathered.origin sound others (perm.mem_iff.mp hx)
    have ne := Nat.ne_of_gt (Graph.lt_of_mem_ancestors (branch.mem_ancestors sound))
    refine ⟨b, branch.extend grows.toExtends, ?_, ?_⟩
    · change ((s.graph.modify c _).node b).kind.tag = _
      rwa [Graph.node_modify_of_ne ne]
    · change x ∈ ((s.graph.modify c _).node b).props
      rwa [Graph.node_modify_of_ne ne]

/-- Merging starts with the branches right below the composition. -/
theorem Gathered.start (sound : r.graph.Sound)
    (composition : (r.graph.node c).kind.isComposition = true) :
    Gathered d c filtering r r ⟨[], []⟩ (branchesBelow r.graph c) := by
  constructor
  case visits => exact .refl d r
  case branches =>
    intro b hb
    have child := (hb.resolve_left List.not_mem_nil)
    exact .single ⟨Kind.expands_of_isComposition composition, (List.mem_filter.mp child).1⟩
  case visited => exact fun b none => absurd none List.not_mem_nil
  case top => exact fun b edge => .inr (mem_branchesBelow sound edge)
  case closed => exact fun b none => absurd none List.not_mem_nil
  case fields => exact fun b none => absurd none List.not_mem_nil
  case cover => exact fun b none => absurd none List.not_mem_nil
  case keys => exact List.nodup_nil

/-- The first time, the node is visited and marked, and gets the fields that merging finds. -/
theorem consolidate_cases {branches : List Nat} (h : Ends (consolidate d i) r branches r') :
    ((r.graph.node i).consolidated = true ∧ r = r') ∨
      ((r.graph.node i).consolidated = false ∧ ∃ s m t, Ends (visit d i) r ⟨⟩ s ∧
        Ends (mergeLevels d s.isFiltering (s.marked i).reach ⟨[], []⟩
          (branchesBelow (s.marked i).graph i)) (s.marked i) m t ∧
        branches = m.consumed ∧
        r' = (t.onGraph fun g =>
          g.modify i (Node.withProps (Text.sortByName Prod.fst m.props))).absorb i m.consumed) := by
  unfold consolidate at h
  simp only [Ends.bind_iff, ends_node] at h
  obtain ⟨_, _, ⟨rfl, rfl⟩, h⟩ := h
  split at h
  · next consolidated =>
    simp only [Ends.bind_iff, Ends.get_iff, Ends.pure_iff] at h
    obtain ⟨_, _, ⟨rfl, rfl⟩, -, rfl⟩ := h
    exact .inl ⟨consolidated, rfl⟩
  · next fresh =>
    simp only [Ends.bind_iff, ends_modifyNode, Ends.get_iff, Ends.modify_iff, Ends.pure_iff] at h
    obtain ⟨_, s, visit, _, _, rfl, filtering, _, filters, _, _, ⟨rfl, rfl⟩, m, t,
      merges, _, _, rfl, _, _, rfl, rfl, rfl⟩ := h
    obtain ⟨rfl, rfl⟩ := ends_isFiltering filters
    exact .inr ⟨Bool.eq_false_iff.mpr fresh, s, m, t, visit, merges, rfl, rfl⟩

/-- A composition that is merged for the first time: it was visited and marked, and its branches
were gathered. -/
structure Merging (d : Document) (i : Nat) (r s t : Run) (m : Merged) : Prop where
  inside : i < r.graph.size
  composition : (r.graph.node i).kind.isComposition = true
  fresh : (r.graph.node i).consolidated = false
  visits : r.Visits d s
  visited : (s.graph.node i).visited = true
  sound : (s.marked i).graph.Sound
  gathered : Gathered d i s.isFiltering (s.marked i) t m []

namespace Merging

theorem grows_marked : s.graph.Grows ∅ (s.marked i).graph :=
  .mark (fun n => { Node.Keeps.refl n with consolidated := fun _ => rfl }) (fun _ => rfl)
    (fun _ => rfl) fun _ => rfl

/-- A composition is merged after its visit. -/
theorem of_ends (visit : Ends (visit d i) r ⟨⟩ s)
    (merges : Ends (mergeLevels d s.isFiltering (s.marked i).reach ⟨[], []⟩
      (branchesBelow (s.marked i).graph i)) (s.marked i) m t) (sound : r.graph.Sound)
    (composition : (r.graph.node i).kind.isComposition = true)
    (fresh : (r.graph.node i).consolidated = false) : Merging d i r s t m := by
  have inside : i < r.graph.size := Graph.lt_size_of_ne fun e => by
    rw [e] at composition
    cases composition
  obtain ⟨visits, visited⟩ := visit_steps visit sound
  have inside' := inside.trans_le visits.grows.size_le
  have marks : s.graph.Move d (s.marked i).graph := .consolidate inside'
  have sound' := (visits.sound sound).move marks
  have composition' : ((s.marked i).graph.node i).kind.isComposition = true := by
    rwa [grows_marked.kind inside', visits.grows.kind inside]
  exact ⟨inside, composition, fresh, visits, visited, sound',
    mergeLevels_gathers merges (.start sound' composition') sound'
      (inside'.trans_le grows_marked.size_le) ((grows_marked.keeps inside').visited visited)⟩

variable (merging : Merging d i r s t m)

include merging

/-- The composition is a node of the graph. -/
theorem inside_marked : i < (s.marked i).graph.size :=
  (merging.inside.trans_le merging.visits.grows.size_le).trans_le grows_marked.size_le

theorem visited_marked : ((s.marked i).graph.node i).visited = true :=
  (grows_marked.keeps (merging.inside.trans_le merging.visits.grows.size_le)).visited
    merging.visited

/-- What the node did not have yet is all that was added. -/
theorem grows : r.graph.Grows r.graph.unvisited t.graph := by
  have first : r.graph.Grows r.graph.unvisited (s.marked i).graph :=
    merging.visits.grows.trans grows_marked fun _ _ none => absurd none (Set.notMem_empty _)
  exact first.trans merging.gathered.visits.grows fun _ lt => first.unvisited lt

/-- The graph is sound when all is gathered. -/
theorem sound_gathered : t.graph.Sound := merging.gathered.visits.sound merging.sound

/-- The composition is marked as consolidated. -/
theorem consolidated : (t.graph.node i).consolidated = true := by
  refine (merging.gathered.visits.grows.keeps merging.inside_marked).consolidated ?_
  change ((s.graph.modify i _).node i).consolidated = true
  simp [merging.inside.trans_le merging.visits.grows.size_le]

theorem visited_gathered : (t.graph.node i).visited = true :=
  (merging.gathered.visits.grows.keeps merging.inside_marked).visited merging.visited_marked

theorem filter : t.filter = r.filter :=
  merging.gathered.visits.filter.trans merging.visits.filter

/-- Only the node was marked, so any other composition had been merged before. -/
theorem merged_before {b : Nat} (ne : b ≠ i) (inside : b < t.graph.size)
    (consolidated : (t.graph.node b).consolidated = true) :
    b < r.graph.size ∧ (r.graph.node b).consolidated = true := by
  obtain ⟨inside, consolidated⟩ := merging.gathered.visits.unmerged inside consolidated
  have consolidated : (s.graph.node b).consolidated = true :=
    (congrArg Node.consolidated (Graph.node_modify_of_ne ne)).symm.trans consolidated
  exact merging.visits.unmerged (Graph.size_modify (g := s.graph) ▸ inside) consolidated

/-- In the end the node gets the fields that were gathered. -/
theorem move : t.graph.Move d (t.graph.modify i
    (Node.withProps (Text.sortByName Prod.fst m.props))) := by
  have perm : (Text.sortByName Prod.fst m.props).Perm m.props := Text.sortByName_perm _ _
  refine .merge ?_ merging.consolidated (fun x hx => ?_) (fun x hx => ?_) ?_
  · rw [merging.grows.kind merging.inside]
    exact merging.composition
  · exact (merging.gathered.isField merging.sound_gathered (perm.mem_iff.mp hx)).1
  · exact (merging.gathered.isField merging.sound_gathered (perm.mem_iff.mp hx)).2
  · exact (perm.map Prod.fst).nodup_iff.mpr merging.gathered.keys

/-- A composition is merged by growth among unvisited nodes. -/
theorem grows_merged : r.graph.Grows r.graph.unvisited (t.graph.modify i
    (Node.withProps (Text.sortByName Prod.fst m.props))) := by
  have grows := merging.grows
  refine ⟨grows.toExtends.trans (.modify { Node.Keeps.refl (t.graph.node i) with }),
    fun lt => ?_, fun lt free => ?_, fun {j} lt free merged => ?_⟩
  · rw [← grows.kind lt]
    exact Graph.part_modify Node.kind (fun _ => by rfl) _
  · rw [← grows.children lt free]
    exact Graph.part_modify Node.children (fun _ => by rfl) _
  · have ne : j ≠ i := fun e => by
      rw [e, Node.isMerged, merging.composition, Bool.not_true, Bool.false_or,
        merging.fresh] at merged
      cases merged
    rw [Graph.node_modify_of_ne ne]
    exact grows.props lt free merged

/-- Where all that was merged before is complete, all that is merged now is. -/
theorem complete (sound : r.graph.Sound) (complete : r.Complete) :
    ((t.onGraph fun g => g.modify i (Node.withProps (Text.sortByName Prod.fst m.props))).absorb
      i m.consumed).Complete := by
  have inside := merging.inside.trans_le merging.grows.size_le
  have before : ∀ c, c ≠ i → (t.graph.node c).kind.isComposition = true →
      (t.graph.node c).consolidated = true → ∃ lt : c < r.graph.size,
        r.Covers c ∧ (r.graph.node c).isMerged = true := fun c ne composed kept => by
    have lt : c < t.graph.size := Graph.lt_size_of_ne fun nowhere => by
      rw [nowhere] at composed
      cases composed
    obtain ⟨lt, kept⟩ := merging.merged_before ne lt kept
    rw [merging.grows.kind lt] at composed
    refine ⟨lt, complete c composed kept, ?_⟩
    rw [Node.isMerged, kept, Bool.or_true]
  intro c composed kept
  by_cases e : c = i
  · subst e
    refine merging.gathered.covers merging.sound_gathered inside merging.visited_gathered
      (fun on => ?_) fun b ne composed kept => ?_
    · rw [Run.isFiltering, Bool.and_eq_true, Bool.and_eq_true] at on
      rw [merging.gathered.visits.filter]
      exact on.1.1
    · obtain ⟨lt, covers, merged⟩ := before b ne composed kept
      exact covers.after lt sound merging.grows merging.filter merged
  · change ((t.graph.modify i _).node c).kind.isComposition = true at composed
    change ((t.graph.modify i _).node c).consolidated = true at kept
    rw [Graph.node_modify_of_ne e] at composed kept
    obtain ⟨lt, covers, merged⟩ := before c e composed kept
    exact covers.after lt sound merging.grows_merged merging.filter merged

end Merging

/-- A composition is complete once it is merged; the answer are its branches. -/
theorem consolidate_drafts {branches : List Nat} (h : Ends (consolidate d i) r branches r')
    (sound : r.graph.Sound) (composition : (r.graph.node i).kind.isComposition = true) :
    r.Drafts d r' ∧ (r'.graph.node i).consolidated = true := by
  obtain ⟨consolidated, rfl⟩ | ⟨fresh, s, m, t, visit, merges, rfl, rfl⟩ := consolidate_cases h
  · exact ⟨.refl d r, consolidated⟩
  · have merging := Merging.of_ends visit merges sound composition fresh
    have gathers := merging.gathered.visits
    have visits := merging.visits
    have marks : s.graph.Move d (s.marked i).graph :=
      .consolidate (merging.inside.trans_le visits.grows.size_le)
    refine ⟨⟨?_, merging.grows_merged, ?_, ?_, fun _ => merging.complete sound,
      gathers.stack.trans visits.stack, merging.filter, gathers.extent.trans visits.extent⟩, ?_⟩
    · exact ((visits.moves.tail marks).trans gathers.moves).tail merging.move
    · intro o filled
      have filled := gathers.filled ((visits.filled filled).mark (fun _ => rfl)
        (fun _ => rfl) (fun _ => rfl) fun _ => rfl)
      refine filled.withProps ?_
      rw [merging.grows.kind merging.inside]
      exact Kind.not_object_of_isComposition composition
    · intro o served
      have served := gathers.served ((visits.served served).mark
        (fun _ => rfl) (fun _ => rfl) fun _ => rfl)
      exact served.mark (fun _ => rfl) (fun _ => rfl) fun _ => rfl
    · change ((t.graph.modify i _).node i).consolidated = true
      rw [Graph.node_modify_self (merging.inside.trans_le merging.grows.size_le)]
      exact merging.consolidated

end Build

end RestGraph
