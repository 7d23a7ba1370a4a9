import RestGraph.Proofs.Document.Sites
import RestGraph.Proofs.Graph.Lineages

/-!
# Sites of nodes

A node of the graph stands at a site of the full expansion. The site stays while the graph grows
elsewhere, and it says what the steps that make nodes ask of their parent: its path, the names it
gives, and the ids that are taken on the way up.
-/

namespace RestGraph

/-! ## Seeds -/

namespace Kind

variable (k : Kind)

@[simp] theorem label_unaimed : k.unaimed.label = k.label := by cases k <;> rfl

@[simp] theorem isProperty_unaimed : k.unaimed.isProperty = k.isProperty := by cases k <;> rfl

@[simp] theorem isLeaf_unaimed : k.unaimed.isLeaf = k.isLeaf := by cases k <;> rfl

/-- Only a circular reference has an aim to forget. -/
@[simp] theorem unaimed_of_not_circular {k : Kind} (other : k.tag ≠ .circular) : k.unaimed = k := by
  cases k <;> first | rfl | exact absurd rfl other

end Kind

/-- A seed has the id of the node it was read off. -/
@[simp] theorem Node.id_seed (n : Node) : n.seed.id = n.id := by
  rw [Seed.id, Node.id, idOf, idOf, Node.seed, Kind.label_unaimed]

/-- The names below a node hang on its seed and on how many children it has. -/
@[simp] theorem ChildNames.below_seed (n : Node) :
    ChildNames.below (n.seed.node n.children.length) = ChildNames.below n := by
  unfold ChildNames.below
  cases kind : n.kind <;>
    simp only [Seed.node, Node.seed, kind, Kind.unaimed, List.length_replicate]

@[simp] theorem Node.seedBelow?_seed (n : Node) (schema : Json) :
    (n.seed.node n.children.length).seedBelow? schema = n.seedBelow? schema := by
  rw [seedBelow?, seedBelow?, ChildNames.below_seed]

namespace Graph

variable {busy : Set Nat} {g h : Graph} {i p c : Nat} {s : Seed}

def seedAt (g : Graph) (i : Nat) : Seed := (g.node i).seed

/-- The nodes that are built at once with a node, each below the one before. -/
def innerOf (g : Graph) (i : Nat) : List Seed :=
  if (g.node i).kind.isEager then
    match g.firstBelow? i with
    | some ⟨c, _⟩ => g.seedAt c :: g.innerOf c
    | none => []
  else []
termination_by g.size - i
decreasing_by omega

def site (g : Graph) (i : Nat) : Site := ⟨(g.ancestors i).map g.seedAt, g.seedAt i, g.innerOf i⟩

def sitesBelow (g : Graph) (i : Nat) : List Site := (g.node i).children.map g.site

/-- The line of a site lists the seeds from the node up to its root. -/
@[simp] theorem line_site : (g.site i).line = (i :: g.ancestors i).map g.seedAt := rfl

@[simp] theorem id_seedAt : (g.seedAt i).id = g.idAt i := Node.id_seed _

@[simp] theorem isProperty_seedAt : (g.seedAt i).kind.isProperty = (g.node i).isProperty :=
  Kind.isProperty_unaimed _

@[simp] theorem path_site : (g.site i).path = g.pathOf i := by
  rw [Site.path, line_site, pathOf, chain, ← List.map_reverse, List.map_map]
  exact congrArg joinPath (List.map_congr_left fun a _ => by
    rw [Function.comp_apply, id_seedAt])

/-- Only what is made with its children has an inside. -/
@[simp] theorem innerOf_of_late (late : (g.node i).kind.isEager = false) : g.innerOf i = [] := by
  rw [innerOf, late]
  rfl

@[simp] theorem innerOf_of_childless (children : (g.node i).children = []) : g.innerOf i = [] := by
  rw [innerOf]
  have first : g.firstBelow? i = none := by rw [firstBelow?, children]
  simp only [first, ite_self]

/-- What is inside an eager node is its first child and what is inside that. -/
theorem innerOf_of_first {rest : List Nat} (eager : (g.node i).kind.isEager = true)
    (children : (g.node i).children = c :: rest) (lt : i < c ∧ c < g.size) :
    g.innerOf i = g.seedAt c :: g.innerOf c := by
  rw [innerOf]
  simp only [eager, if_true, firstBelow?_of_cons children lt]

/-- A node looks as its seed says. -/
@[simp] theorem seed_sprout {parent : Option Nat} (other : s.kind.tag ≠ .circular) :
    (g.sprout parent s).seed = s := by
  change Seed.mk s.kind.unaimed s.name s.discriminant s.scope s.schema = s
  rw [Kind.unaimed_of_not_circular other]

/-! ## Order -/

/-- What the sites of a graph rest on. Unlike a forest it asks nothing of the kinds of nodes, so
that it holds at every point of a step. -/
structure Orderly (g : Graph) : Prop where
  below : ∀ {i c}, c ∈ (g.node i).children → i < c ∧ c < g.size
  parent : ∀ {i c}, c ∈ (g.node i).children → (g.node c).parent = some i
  late : ∀ {i}, (g.node i).kind.isEager = false → (g.node i).visited = false →
    (g.node i).children = []
  narrow : ∀ {i}, (g.node i).kind.isEager = true → (g.node i).children.length ≤ 1
  lineage : ∀ {i}, i < g.size → (g.node i).lineage = g.heritage i

theorem Forest.orderly (forest : g.Forest) (lineal : g.Lineal) : g.Orderly where
  below := forest.below
  parent := forest.parent
  late := forest.late
  narrow {i} eager := forest.narrow (by
    cases kind : (g.node i).kind <;> rw [kind] at eager <;> first | rfl | cases eager)
  lineage := lineal.exact

/-- The node may get another child. -/
structure Ready (g : Graph) (p : Nat) : Prop where
  inside : p < g.size
  due : (g.node p).kind.isEager = false → (g.node p).visited = true
  single : (g.node p).kind.isEager = true → (g.node p).children = []

namespace Orderly

/-- The ancestors of a child are its parent and the ancestors of its parent. -/
theorem ancestors_of_child (orderly : g.Orderly) (child : c ∈ (g.node p).children) :
    g.ancestors c = p :: g.ancestors p :=
  ancestors_of_parent (orderly.parent child) (orderly.below child).1

/-- The site of a child is the site of its parent with one seed more. -/
theorem site_of_child (orderly : g.Orderly) (child : c ∈ (g.node p).children) :
    g.site c = ⟨(g.site p).line, g.seedAt c, g.innerOf c⟩ := by
  rw [site, orderly.ancestors_of_child child]
  rfl

/-- A node without a first child has no children. -/
theorem children_of_first_none (orderly : g.Orderly) (first : g.firstBelow? i = none) :
    (g.node i).children = [] := by
  cases children : (g.node i).children with
  | nil => rfl
  | cons c rest =>
    have bounds := orderly.below (children ▸ List.mem_cons_self : c ∈ (g.node i).children)
    rw [firstBelow?_of_cons children bounds] at first
    cases first

/-- A change of a node is no matter further down. -/
theorem innerOf_modify (orderly : g.Orderly) {f : Node → Node} {j : Nat} (lt : i < j) :
    (g.modify i f).innerOf j = g.innerOf j := by
  have same : ∀ {j}, i < j → (g.modify i f).node j = g.node j := fun lt =>
    node_modify_of_ne (Nat.ne_of_gt lt)
  fun_induction Graph.innerOf g j with
  | case1 j eager c bounds first ih =>
    obtain ⟨rest, children⟩ := firstBelow?_eq_some first
    rw [innerOf_of_first (c := c) (by rwa [same lt]) (by rw [same lt, children])
      (by simpa), ih (lt.trans bounds.1), seedAt, seedAt, same (lt.trans bounds.1)]
  | case2 j eager first =>
    exact innerOf_of_childless (by rw [same lt, orderly.children_of_first_none first])
  | case3 j late => exact innerOf_of_late (by rw [same lt, Bool.eq_false_iff.mpr late])

/-- An id is taken on the way up if the lineage has it. -/
theorem meets_site (orderly : g.Orderly) (inside : i < g.size) (id : String) :
    (g.site i).meets id = (g.lineageHit? i id).isSome := by
  have all : ∀ l : List Nat, ((l.map g.seedAt).any fun x => !x.kind.isProperty && x.id == id) =
      (((l.filter fun a => !(g.node a).isProperty).map fun a => (g.idAt a, a)).lookup
        id).isSome := by
    intro l
    induction l with
    | nil => rfl
    | cons a l ih =>
      rw [List.map_cons, List.any_cons, ih, isProperty_seedAt, id_seedAt, List.filter_cons]
      cases (g.node a).isProperty with
      | true => rfl
      | false =>
        rw [Bool.not_false, if_pos rfl, List.map_cons, List.lookup_cons, Bool.true_and,
          Bool.beq_comm]
        cases id == g.idAt a <;> rfl
  rw [lineageHit?, orderly.lineage inside]
  exact all (i :: g.ancestors i)

/-- The seed of a node that is attached. -/
theorem seed_checked (orderly : g.Orderly) (inside : p < g.size)
    (other : s.kind.tag ≠ .circular) :
    (g.sprout (some p) (g.checked p s)).seed = (g.site p).checked s := by
  rw [Site.checked, orderly.meets_site inside, checked]
  cases hit : g.lineageHit? p s.id with
  | some => rfl
  | none => exact seed_sprout other

end Orderly

/-! ## Growth -/

namespace Grows

/-- The seeds that were there are there after growth. -/
theorem seedAt (grows : g.Grows busy h) (lt : i < g.size) : h.seedAt i = g.seedAt i := by
  have keeps := grows.keeps lt
  rw [Graph.seedAt, Graph.seedAt, Node.seed, Node.seed, grows.kind lt, keeps.name,
    keeps.discriminant, keeps.scope, keeps.schema]

/-- The lines that were there are there after growth. -/
theorem line (grows : g.Grows busy h) (lt : i < g.size) :
    (h.site i).line = (g.site i).line := by
  rw [line_site, line_site, grows.ancestors lt]
  refine List.map_congr_left fun a mem => grows.seedAt ?_
  rcases List.mem_cons.mp mem with rfl | above
  · exact lt
  · exact (lt_of_mem_ancestors above).trans lt

/-- What is built at once with a node stays while no node of its kind is worked on. -/
theorem innerOf (grows : g.Grows busy h) (orderly : g.Orderly)
    (free : ∀ {o}, o < g.size → (g.node o).kind.isEager = true → o ∉ busy) (lt : i < g.size) :
    h.innerOf i = g.innerOf i := by
  fun_induction Graph.innerOf g i with
  | case1 i eager c bounds first ih =>
    obtain ⟨rest, children⟩ := firstBelow?_eq_some first
    rw [innerOf_of_first (grows.kind lt ▸ eager)
      ((grows.children lt (free lt eager)).trans children)
        ⟨bounds.1, bounds.2.trans_le grows.size_le⟩,
      ih bounds.2, grows.seedAt bounds.2]
  | case2 i eager first =>
    refine innerOf_of_childless ?_
    rw [grows.children lt (free lt eager), orderly.children_of_first_none first]
  | case3 i late => exact innerOf_of_late (grows.kind lt ▸ Bool.eq_false_iff.mpr late)

theorem site (grows : g.Grows busy h) (orderly : g.Orderly)
    (free : ∀ {o}, o < g.size → (g.node o).kind.isEager = true → o ∉ busy) (lt : i < g.size) :
    h.site i = g.site i := by
  obtain ⟨seed, above⟩ := List.cons.inj (grows.line lt)
  exact Site.ext above seed (grows.innerOf orderly free lt)

/-- The children that a node has already keep their sites. -/
theorem map_site (grows : g.Grows busy h) (orderly : g.Orderly)
    (free : ∀ {o}, o < g.size → (g.node o).kind.isEager = true → o ∉ busy) :
    (g.node p).children.map h.site = g.sitesBelow p :=
  List.map_congr_left fun _ child => grows.site orderly free (orderly.below child).2

/-- A node that is not busy keeps the sites below it. -/
theorem sitesBelow (grows : g.Grows busy h) (orderly : g.Orderly)
    (free : ∀ {o}, o < g.size → (g.node o).kind.isEager = true → o ∉ busy) (lt : i < g.size)
    (idle : i ∉ busy) : h.sitesBelow i = g.sitesBelow i := by
  rw [Graph.sitesBelow, grows.children lt idle, grows.map_site orderly free]

end Grows

namespace Orderly

/-- A node that waits for its visit has no children yet. -/
theorem late_attach (orderly : g.Orderly) (ready : g.Ready p)
    (eager : ((g.attach p s).node i).kind.isEager = false)
    (visited : ((g.attach p s).node i).visited = false) :
    ((g.attach p s).node i).children = [] := by
  rw [children_attach ready.inside]
  by_cases old : i < g.size
  · rw [kind_attach_of_lt old] at eager
    rw [visited_attach, if_neg (Nat.ne_of_lt old)] at visited
    rw [if_neg, orderly.late eager visited]
    rintro rfl
    rw [ready.due eager] at visited
    cases visited
  · rw [if_neg, node_of_size_le (Nat.le_of_not_lt old)]
    · rfl
    · rintro rfl
      exact old ready.inside

/-- What is made with its children had none before. -/
theorem narrow_attach (orderly : g.Orderly) (ready : g.Ready p)
    (eager : ((g.attach p s).node i).kind.isEager = true) :
    ((g.attach p s).node i).children.length ≤ 1 := by
  rw [children_attach ready.inside]
  split
  · next e =>
    rw [e, kind_attach_of_lt ready.inside] at eager
    rw [ready.single eager]
    exact Nat.le_refl 1
  · by_cases old : i < g.size
    · exact orderly.narrow (kind_attach_of_lt old ▸ eager)
    · rw [node_of_size_le (Nat.le_of_not_lt old)]
      exact Nat.zero_le 1

theorem attach (orderly : g.Orderly) (ready : g.Ready p) : (g.attach p s).Orderly where
  below := below_attach orderly.below ready.inside
  parent := parent_of_child_attach orderly.below orderly.parent ready.inside
  late := orderly.late_attach ready
  narrow := orderly.narrow_attach ready
  lineage {j} lt := by
    rw [size_attach] at lt
    rcases Nat.lt_succ_iff_lt_or_eq.mp lt with old | rfl
    · rw [heritage_attach_of_lt old, (Extends.attach.keeps old).lineage, orderly.lineage old]
    · exact Lineal.exact_attach (orderly.lineage ready.inside) ready.inside

/-- A change of one node that is no matter for sites. -/
theorem modify {f : Node → Node} (orderly : g.Orderly) (keep : (g.node i).Keeps (f (g.node i)))
    (children : (f (g.node i)).children = (g.node i).children) : (g.modify i f).Orderly := by
  have extends' : g.Extends (g.modify i f) := .modify keep
  have same : ∀ j, ((g.modify i f).node j).children = (g.node j).children := fun j => by
    by_cases inside : i < g.size
    · rw [node_modify inside]
      split
      · next e => rw [children, e]
      · rfl
    · rw [modify_of_size_le (Nat.le_of_not_lt inside)]
  constructor
  case below =>
    intro j c child
    rw [size_modify]
    exact orderly.below (same j ▸ child)
  case parent =>
    intro j c child
    have old := same j ▸ child
    rw [(extends'.keeps (orderly.below old).2).parent]
    exact orderly.parent old
  case late =>
    intro j eager visited
    rw [same]
    have lt : j < g.size := size_modify ▸ lt_size_of_not_visited visited
    have keeps := extends'.keeps lt
    rw [keeps.kind.isEager] at eager
    exact orderly.late eager (Bool.eq_false_iff.mpr fun done =>
      Bool.eq_false_iff.mp visited (keeps.visited done))
  case narrow =>
    intro j eager
    rw [same]
    by_cases old : j < g.size
    · rw [(extends'.keeps old).kind.isEager] at eager
      exact orderly.narrow eager
    · rw [node_of_size_le (Nat.le_of_not_lt old)]
      exact Nat.zero_le 1
  case lineage =>
    intro j lt
    rw [size_modify] at lt
    rw [(extends'.keeps lt).lineage, orderly.lineage lt]
    exact (extends'.heritage (fun a old plain => extends'.idAt old plain) lt).symm

end Orderly

end Graph

end RestGraph
