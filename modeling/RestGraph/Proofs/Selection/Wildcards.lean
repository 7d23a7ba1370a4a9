import RestGraph.Proofs.Graph.Preorder
import RestGraph.Proofs.Schema.Frozen
import RestGraph.Proofs.Schema.History
import RestGraph.Proofs.Selection.Resolving

/-!
# What wildcards select

A wildcard selects the leaves that it comes to: it passes no leaf and enters no argument, and a
direct one passes no property either. They are found in preorder. The search builds the tree that it
searches, so what it finds is read off the graph that it leaves behind, in which all that it passed
was visited.
-/

namespace RestGraph

variable {d : Document} {g : Graph} {r s t : Run} {w : Wildcard} {top c i n depth : Nat}
  {leaves : List Nat} {merged : Nat → Prop}

/-- A wildcard enters all but arguments, and a direct one no property that has parts. -/
@[simp] theorem Build.entersChild_iff {n : Node} : entersChild w n = true ↔
    n.kind.tag ≠ .param ∧ n.kind.tag ≠ .body ∧
      (w = .direct → n.isProperty = true → n.isLeaf = true) := by
  unfold entersChild Node.isProperty Kind.isProperty
  cases kind : n.kind <;> cases w <;> simp [Kind.tag]

namespace Graph

/-- A wildcard comes from the node at the top down to another: there is no leaf before it, below the
top there is no argument, and if the wildcard is direct no property but a leaf. -/
structure Reaches (g : Graph) (w : Wildcard) (top n : Nat) : Prop where
  below : n = top ∨ top ∈ g.ancestors n
  inner : ∀ a ∈ g.ancestors n, a = top ∨ top ∈ g.ancestors a → (g.node a).isLeaf = false
  served : ∀ a ∈ g.chain n, top ∈ g.ancestors a →
    (g.node a).kind.tag ≠ .param ∧ (g.node a).kind.tag ≠ .body
  near : w = .direct → ∀ a ∈ g.chain n, top ∈ g.ancestors a →
    (g.node a).isProperty = true → (g.node a).isLeaf = true

theorem reaches_iff : g.Reaches w top n ↔ (n = top ∨ top ∈ g.ancestors n) ∧
    (∀ a ∈ g.ancestors n, a = top ∨ top ∈ g.ancestors a → (g.node a).isLeaf = false) ∧
    ∀ a ∈ g.chain n, top ∈ g.ancestors a → Build.entersChild w (g.node a) = true := by
  simp only [Build.entersChild_iff]
  constructor
  · intro ⟨below, inner, served, near⟩
    exact ⟨below, inner, fun a on low => ⟨(served a on low).1, (served a on low).2,
      fun direct => near direct a on low⟩⟩
  · intro ⟨below, inner, entered⟩
    exact ⟨below, inner, fun a on low => ⟨(entered a on low).1, (entered a on low).2.1⟩,
      fun direct a on low => (entered a on low).2.2 direct⟩

instance : Decidable (g.Reaches w top n) := decidable_of_iff _ reaches_iff.symm

/-- A leaf that the wildcard comes to. -/
def Selects (g : Graph) (w : Wildcard) (top n : Nat) : Prop :=
  g.Reaches w top n ∧ (g.node n).isLeaf = true

instance : Decidable (g.Selects w top n) := inferInstanceAs (Decidable (_ ∧ _))

/-- Strictly between the node at the top and another there is no property but a leaf. -/
def IsNear (g : Graph) (top n : Nat) : Prop :=
  ∀ a ∈ g.ancestors n, top ∈ g.ancestors a →
    (g.node a).isProperty = true → (g.node a).isLeaf = true

instance : Decidable (g.IsNear top n) := inferInstanceAs (Decidable (∀ a ∈ g.ancestors n, _))

/-- A direct wildcard selects what is near of what a deep one does. -/
@[simp]
theorem selects_direct : g.Selects .direct top n ↔ g.Selects .deep top n ∧ g.IsNear top n := by
  constructor
  · intro ⟨⟨below, inner, served, near⟩, leaf⟩
    exact ⟨⟨⟨below, inner, served, nofun⟩, leaf⟩,
      fun a above => near rfl a (mem_chain.mpr (.inr above))⟩
  · intro ⟨⟨⟨below, inner, served, _⟩, leaf⟩, near⟩
    refine ⟨⟨below, inner, served, fun _ a on low property => ?_⟩, leaf⟩
    rcases mem_chain.mp on with rfl | above
    · exact leaf
    · exact near a above low property

/-- The leaves that a wildcard selects, searched for in the graph as it is. -/
def leavesFrom (g : Graph) (w : Wildcard) (i : Nat) : List Nat :=
  if (g.node i).isLeaf then [i]
  else (g.node i).children.flatMap fun c =>
    if _ : i < c ∧ c < g.size then if Build.entersChild w (g.node c)
      then g.leavesFrom w c else [] else []
termination_by g.size - i
decreasing_by omega

@[simp] theorem leavesFrom_of_leaf (leaf : (g.node i).isLeaf = true) : g.leavesFrom w i = [i] := by
  rw [leavesFrom, if_pos leaf]

theorem Forest.leavesFrom_of_inner (forest : g.Forest) (inner : (g.node i).isLeaf = false) :
    g.leavesFrom w i = (g.node i).children.flatMap fun c =>
      if Build.entersChild w (g.node c) then g.leavesFrom w c else [] := by
  rw [leavesFrom, if_neg (Bool.eq_false_iff.mp inner)]
  exact List.flatMap_congr fun c child => dif_pos (forest.below child)

/-- Below a node that is passed, the wildcard comes to what it comes to from the children that it
enters. -/
theorem Forest.reaches_of_child (forest : g.Forest) (inner : (g.node i).isLeaf = false)
    (child : c ∈ (g.node i).children) (below : n ∈ g.preorder c) :
    g.Reaches w i n ↔ Build.entersChild w (g.node c) = true ∧ g.Reaches w c n := by
  have way := forest.mem_preorder.mp below
  have on : c ∈ g.chain n := mem_chain.mpr (way.imp_left Eq.symm)
  have split : ∀ {a}, a ∈ g.chain n → (i ∈ g.ancestors a ↔ a = c ∨ c ∈ g.ancestors a) :=
    forest.mem_ancestors_iff child on
  have last : ∀ {a}, a ∈ g.ancestors n → a ∈ g.chain n := fun mem => mem_chain.mpr (.inr mem)
  have apart : c ∉ g.ancestors c := fun mem => Nat.lt_irrefl _ (lt_of_mem_ancestors mem)
  rw [reaches_iff, reaches_iff]
  constructor
  · intro ⟨_, open_, entered⟩
    exact ⟨entered c on ((split on).mpr (.inl rfl)), way,
      fun a mem high => open_ a mem (.inr ((split (last mem)).mpr high)),
      fun a mem low => entered a mem ((split mem).mpr (.inr low))⟩
  · intro ⟨enters, _, open_, entered⟩
    refine ⟨.inr ((split (mem_chain.mpr (.inl rfl))).mpr way),
      fun a mem high => ?_, fun a mem low => ?_⟩
    · rcases high with rfl | low
      · exact inner
      · exact open_ a mem ((split (last mem)).mp low)
    · rcases (split mem).mp low with rfl | low
      · exact enters
      · exact entered a mem low

theorem reaches_self : g.Reaches w i i := by
  have apart : ∀ a ∈ g.chain i, i ∉ g.ancestors a := fun a on low => by
    rcases mem_chain.mp on with rfl | high
    · exact Nat.lt_irrefl _ (lt_of_mem_ancestors low)
    · exact Nat.lt_asymm (lt_of_mem_ancestors high) (lt_of_mem_ancestors low)
  refine ⟨.inl rfl, fun a high low => ?_, fun a on low => absurd low (apart a on),
    fun _ a on low => absurd low (apart a on)⟩
  rcases low with rfl | low
  · exact absurd (lt_of_mem_ancestors high) (Nat.lt_irrefl _)
  · exact absurd low (apart a (mem_chain.mpr (.inr high)))

/-- The leaves are found in preorder. -/
theorem Forest.leavesFrom_eq (forest : g.Forest) (i : Nat) :
    g.leavesFrom w i = (g.preorder i).filter fun n => decide (g.Selects w i n) := by
  induction i using forest.down_induction with
  | step i ih =>
    rw [forest.preorder_eq, List.filter_cons]
    cases leaf : (g.node i).isLeaf with
    | true =>
      have rest : ((g.node i).children.flatMap g.preorder).filter
          (fun n => decide (g.Selects w i n)) = [] := by
        refine List.filter_eq_nil_iff.mpr fun n mem selected => ?_
        obtain ⟨c, child, mem⟩ := List.mem_flatMap.mp mem
        have parent : i ∈ g.ancestors c := forest.ancestors_of_child child ▸ List.mem_cons_self
        have below : i ∈ g.ancestors n := by
          rcases forest.mem_preorder.mp mem with rfl | below
          · exact parent
          · exact mem_ancestors_trans parent below
        have inner := (of_decide_eq_true selected).1.inner i below (.inl rfl)
        rw [leaf] at inner
        cases inner
      have here : g.Selects w i i := ⟨reaches_self, leaf⟩
      rw [leavesFrom_of_leaf leaf, if_pos (decide_eq_true here), rest]
    | false =>
      have passed : ¬g.Selects w i i := fun selected => by
        have := selected.2
        rw [leaf] at this
        cases this
      rw [forest.leavesFrom_of_inner leaf, if_neg (by rwa [decide_eq_true_iff]),
        List.filter_flatMap]
      refine List.flatMap_congr fun c child => ?_
      have same : ∀ n ∈ g.preorder c, decide (g.Selects w i n) =
          (Build.entersChild w (g.node c) && decide (g.Selects w c n)) := fun n mem => by
        rw [Bool.eq_iff_iff, Bool.and_eq_true, decide_eq_true_iff, decide_eq_true_iff, Selects,
          forest.reaches_of_child leaf child mem, and_assoc]
        rfl
      rw [List.filter_congr same]
      cases Build.entersChild w (g.node c) with
      | true => simpa using ih c child
      | false => simp

/-- All that the wildcard passes was visited, and no leaf lies deeper than some depth. -/
inductive Searched (g : Graph) (w : Wildcard) : Nat → Nat → Prop
  | leaf {depth i : Nat} (leaf : (g.node i).isLeaf = true) : Searched g w (depth + 1) i
  | inner {depth i : Nat} (visited : (g.node i).visited = true)
      (below : ∀ c ∈ (g.node i).children, Build.entersChild w (g.node c) = true →
        Searched g w depth c) : Searched g w (depth + 1) i

/-- What was searched has been visited. -/
theorem Searched.visited (searched : g.Searched w depth i) (forest : g.Forest)
    (reaches : g.Reaches w i n)
    (inner : (g.node n).isLeaf = false) : (g.node n).visited = true := by
  induction searched with
  | @leaf _ i leaf =>
    rcases reaches.below with rfl | below
    · rw [leaf] at inner
      cases inner
    · have := reaches.inner i below (.inl rfl)
      rw [leaf] at this
      cases this
  | @inner _ i visited _ ih =>
    rcases reaches.below with rfl | below
    · exact visited
    · obtain ⟨c, child, way⟩ := forest.exists_child_of_mem_ancestors below
      have mem : n ∈ g.preorder c := forest.mem_preorder.mpr (way.imp_left Eq.symm)
      obtain ⟨enters, reaches⟩ :=
        (forest.reaches_of_child (reaches.inner i below (.inl rfl)) child mem).mp reaches
      exact ih c child enters reaches

/-- A direct wildcard passes no more than a deep one. -/
theorem Searched.direct (searched : g.Searched .deep depth i) : g.Searched .direct depth i := by
  induction searched with
  | leaf leaf => exact .leaf leaf
  | inner visited _ ih =>
    refine .inner visited fun c child enters => ih c child ?_
    rw [Build.entersChild_iff] at enters ⊢
    exact ⟨enters.1, enters.2.1, nofun⟩

theorem Searched.mono {depth' : Nat} (searched : g.Searched w depth i)
    (le : depth ≤ depth') : g.Searched w depth' i := by
  induction searched generalizing depth' with
  | leaf leaf =>
    obtain ⟨k, rfl⟩ := Nat.exists_eq_add_one.mpr (Nat.zero_lt_of_lt le)
    exact .leaf leaf
  | inner visited _ ih =>
    obtain ⟨k, rfl⟩ := Nat.exists_eq_add_one.mpr (Nat.zero_lt_of_lt le)
    exact .inner visited fun c child enters => ih c child enters (Nat.le_of_succ_le_succ le)

end Graph

/-! ## The search -/

namespace Run.Freezes

variable (freezes : r.Freezes merged s)

include freezes

theorem entersChild (inside : c < r.graph.size) :
    Build.entersChild w (s.graph.node c) = Build.entersChild w (r.graph.node c) := by
  have kind := (freezes.remains c inside).kind
  rw [Bool.eq_iff_iff, Build.entersChild_iff, Build.entersChild_iff, Node.isProperty,
    Node.isProperty, Node.isLeaf, Node.isLeaf, kind]

/-- What was searched stays as it is. -/
theorem searched (searched : r.graph.Searched w depth i) (inside : i < r.graph.size)
    (forest : r.graph.Forest) (later : s.graph.Forest) :
    s.graph.Searched w depth i ∧ s.graph.leavesFrom w i = r.graph.leavesFrom w i := by
  induction searched with
  | @leaf _ i leaf =>
    have leaf' : (s.graph.node i).isLeaf = true := by
      rwa [Node.isLeaf, (freezes.remains i inside).kind]
    exact ⟨.leaf leaf', by rw [Graph.leavesFrom_of_leaf leaf, Graph.leavesFrom_of_leaf leaf']⟩
  | @inner _ i visited below ih =>
    have frozen := freezes.frozen i ⟨inside, visited⟩
    have each : ∀ {c}, c ∈ (r.graph.node i).children →
        Build.entersChild w (s.graph.node c) = Build.entersChild w (r.graph.node c) := fun child =>
      freezes.entersChild (forest.below child).2
    refine ⟨.inner (frozen.visited visited) fun c child enters => ?_, ?_⟩
    · rw [frozen.children] at child
      exact (ih c child (each child ▸ enters) (forest.below child).2).1
    · cases leaf : (r.graph.node i).isLeaf with
      | true =>
        have leaf' : (s.graph.node i).isLeaf = true := by rwa [Node.isLeaf, frozen.kind]
        rw [Graph.leavesFrom_of_leaf leaf, Graph.leavesFrom_of_leaf leaf']
      | false =>
        have inner : (s.graph.node i).isLeaf = false := by rwa [Node.isLeaf, frozen.kind]
        rw [forest.leavesFrom_of_inner leaf, later.leavesFrom_of_inner inner, frozen.children]
        refine List.flatMap_congr fun c child => ?_
        rw [each child]
        split
        · next enters => exact (ih c child enters (forest.below child).2).2
        · rfl

end Run.Freezes

/-- What a search keeps: it goes on in a forest, and leaves alone what was visited. -/
structure Run.Seeks (d : Document) (r s : Run) : Prop where
  advances : Run.Advances d r s
  freezes : r.Freezes (fun _ => False) s

instance : IsPreorder Run (Run.Seeks d) where
  refl r := ⟨refl_of _ r, refl_of _ r⟩
  trans _ _ _ first second :=
    ⟨trans_of _ first.advances second.advances, trans_of _ first.freezes second.freezes⟩

def Run.seek (d : Document) : Course d where
  holds := (Run.growth d).holds
  along := Run.Seeks d
  preorder := inferInstance
  keeps seeks := (Run.growth d).keeps seeks.advances
  registry notes extent := ⟨.of_same notes.graph extent, .of_same notes.graph⟩
  visit holds h := ⟨(Run.growth d).visit holds h, (Run.freeze d _).visit trivial h⟩

namespace Build

/-- The search below some children of a node, when the search below each is known. -/
theorem collectFrom_searches {children : List Nat}
    (each : ∀ {c leaves r s}, Ends (leavesWithin d w depth c) r leaves s → (Run.seek d).holds r →
      c < r.graph.size → s.graph.Searched w depth c ∧ leaves = s.graph.leavesFrom w c)
    (h : Ends (leavesWithin.collectFrom w (leavesWithin d w depth) children) r leaves s)
    (holds : (Run.seek d).holds r) (inside : ∀ c ∈ children, c < r.graph.size) :
    (∀ c ∈ children, entersChild w (s.graph.node c) = true → s.graph.Searched w depth c) ∧
      leaves = children.flatMap fun c =>
        if entersChild w (s.graph.node c) then s.graph.leavesFrom w c else [] := by
  induction children generalizing leaves r with
  | nil =>
    obtain ⟨rfl, rfl⟩ := collectFrom_nil h
    exact ⟨fun _ none => absurd none List.not_mem_nil, rfl⟩
  | cons c rest ih =>
    have searching : ∀ c, Coming (Run.seek d) id (leavesWithin d w depth c) := fun _ =>
      coming_leavesWithin
    have here := inside c List.mem_cons_self
    have others := fun x (mem : x ∈ rest) => inside x (List.mem_cons_of_mem c mem)
    rw [List.flatMap_cons]
    obtain ⟨enters, found, more, u, rfl, first, second⟩ | ⟨passed, second⟩ := enters_or_passes h
    · have before : r.Seeks d u := (searching c holds).ends first
      have holds' := (Run.seek d).keeps before holds
      have after : u.Seeks d s := (coming_collectFrom searching holds').ends second
      have here' := here.trans_le before.freezes.size_le
      obtain ⟨searched, rfl⟩ := each first holds here
      obtain ⟨searched, same⟩ := after.freezes.searched searched here' holds'.1
        ((Run.seek d).keeps after holds').1
      obtain ⟨below, rfl⟩ := ih second holds' fun x mem =>
        (others x mem).trans_le before.freezes.size_le
      have enters' : entersChild w (s.graph.node c) = true := by
        rw [after.freezes.entersChild here', before.freezes.entersChild here, enters]
      refine ⟨fun x mem entered => ?_, by rw [if_pos enters', same]⟩
      rcases List.mem_cons.mp mem with rfl | mem
      · exact searched
      · exact below x mem entered
    · have after : r.Seeks d s := (coming_collectFrom searching holds).ends second
      obtain ⟨below, rfl⟩ := ih second holds others
      have passed' : ¬entersChild w (s.graph.node c) = true := by
        rw [after.freezes.entersChild here, passed]
        exact Bool.false_ne_true
      refine ⟨fun x mem entered => ?_, by rw [if_neg passed', List.nil_append]⟩
      rcases List.mem_cons.mp mem with rfl | mem
      · exact absurd entered passed'
      · exact below x mem entered

/-- A search finds the leaves of the graph that it leaves behind. -/
theorem leavesWithin_searches (h : Ends (leavesWithin d w depth i) r leaves s)
    (holds : (Run.seek d).holds r) (inside : i < r.graph.size) :
    s.graph.Searched w depth i ∧ leaves = s.graph.leavesFrom w i := by
  induction depth generalizing i leaves r s with
  | zero => exact (Ends.throw_iff.mp h).elim
  | succ depth ih =>
    obtain ⟨leaf, rfl, rfl⟩ | ⟨inner, _, u, visit, h⟩ := leaf_or_searched h
    · exact ⟨.leaf leaf, (Graph.leavesFrom_of_leaf leaf).symm⟩
    · have first : r.Seeks d u := (Run.seek d).visit holds visit
      have holds' := (Run.seek d).keeps first holds
      have later : u.Seeks d s :=
        (coming_collectFrom (fun _ => coming_leavesWithin) holds').ends h
      have done : u.graph.IsDone i := isDone_of_visit inside visit
      have frozen := later.freezes.frozen i done
      have inner' : (s.graph.node i).isLeaf = false := by
        rwa [Node.isLeaf, frozen.kind, (first.freezes.remains i inside).kind]
      obtain ⟨below, rfl⟩ := collectFrom_searches ih h holds' fun c child =>
        (holds'.1.below child).2
      refine ⟨.inner (frozen.visited done.2) fun c child => below c (frozen.children ▸ child), ?_⟩
      rw [((Run.seek d).keeps later holds').1.leavesFrom_of_inner inner', frozen.children]

/-- Where all that a wildcard passes was visited, the search changes nothing. -/
theorem leavesWithin_of_searched (searched : r.graph.Searched w depth i) (forest : r.graph.Forest) :
    Ends (leavesWithin d w depth i) r (r.graph.leavesFrom w i) r := by
  induction depth generalizing i with
  | zero => cases searched
  | succ depth ih =>
    have found : ∀ cs ⊆ (r.graph.node i).children,
        (∀ c ∈ cs, entersChild w (r.graph.node c) = true → r.graph.Searched w depth c) →
        Ends (leavesWithin.collectFrom w (leavesWithin d w depth) cs) r (cs.flatMap fun c =>
          if entersChild w (r.graph.node c) then r.graph.leavesFrom w c else []) r := by
      intro cs sub below
      induction cs with
      | nil => exact Ends.pure_iff.mpr ⟨rfl, rfl⟩
      | cons c rest ih' =>
        have child := List.cons_subset.mp sub
        have others := ih' child.2 fun x mem => below x (List.mem_cons_of_mem c mem)
        refine Ends.bind_iff.mpr ⟨_, r, ends_node.mpr ⟨rfl, rfl⟩, ?_⟩
        rw [List.flatMap_cons]
        split
        · next enters =>
          have here := ih (below c List.mem_cons_self enters)
          exact Ends.bind_iff.mpr ⟨_, r, here, Ends.bind_iff.mpr ⟨_, r, others,
            Ends.pure_iff.mpr ⟨rfl, rfl⟩⟩⟩
        · exact Ends.bind_iff.mpr ⟨[], r, Ends.pure_iff.mpr ⟨rfl, rfl⟩,
            Ends.bind_iff.mpr ⟨_, r, others, Ends.pure_iff.mpr ⟨rfl, rfl⟩⟩⟩
    rw [leavesWithin]
    refine Ends.bind_iff.mpr ⟨_, r, ends_node.mpr ⟨rfl, rfl⟩, ?_⟩
    cases searched with
    | leaf leaf =>
      rw [if_pos leaf, Graph.leavesFrom_of_leaf leaf]
      exact Ends.pure_iff.mpr ⟨rfl, rfl⟩
    | inner visited below =>
      split
      · next leaf =>
        rw [Graph.leavesFrom_of_leaf leaf]
        exact Ends.pure_iff.mpr ⟨rfl, rfl⟩
      · next inner =>
        rw [forest.leavesFrom_of_inner (Bool.eq_false_iff.mpr inner)]
        refine Ends.bind_iff.mpr ⟨_, r, ?_, found _ (List.Subset.refl _) below⟩
        exact Ends.bind_iff.mpr ⟨_, r, ends_visit_of_visited visited,
          Ends.bind_iff.mpr ⟨_, r, ends_node.mpr ⟨rfl, rfl⟩, Ends.pure_iff.mpr ⟨rfl, rfl⟩⟩⟩

/-- What wildcards select below a node, read off the run that the search for all leaves ends in. -/
structure Selected (d : Document) (r : Run) (top : Nat) (leaves : List Nat) (s : Run) : Prop where
  preorder : leaves = (s.graph.preorder top).filter fun n => s.graph.Selects .deep top n
  nodup : leaves.Nodup
  mem : ∀ n, n ∈ leaves ↔ s.graph.Selects .deep top n
  visited : ∀ n, s.graph.Reaches .deep top n → (s.graph.node n).isLeaf = false →
    (s.graph.node n).visited = true
  /-- The direct wildcard selects the leaves before which there is no property. -/
  direct : Ends (leavesBelow d top .direct) s (leaves.filter fun n => s.graph.IsNear top n) s
  /-- It does so too where not all leaves are built, and selects what it comes to in its own
  graph. -/
  alone : ∀ {found t}, Ends (leavesBelow d top .direct) r found t →
    found = (t.graph.preorder top).filter fun n => t.graph.Selects .direct top n
  /-- If no call has failed before, these are the same leaves. -/
  same : r.Answered d → ∃ found t, Ends (leavesBelow d top .direct) r found t ∧
    found.map t.graph.pathOf = (leaves.filter fun n => s.graph.IsNear top n).map s.graph.pathOf

theorem ends_leavesBelow : Ends (leavesBelow d top w) r leaves s ↔
    Ends (leavesWithin d w r.reach top) r leaves s := by
  rw [leavesBelow, Ends.bind_iff]
  constructor
  · rintro ⟨_, _, look, h⟩
    obtain ⟨rfl, rfl⟩ := Ends.get_iff.mp look
    exact h
  · exact fun h => ⟨r, r, Ends.get_iff.mpr ⟨rfl, rfl⟩, h⟩

/-- What a search for leaves finds, and what it keeps. -/
theorem leavesBelow_searches (attained : r.Attained d) (inside : top < r.graph.size)
    (h : Ends (leavesBelow d top w) r leaves s) : s.graph.Searched w r.reach top ∧
      r.Seeks d s ∧ s.graph.Forest ∧ leaves = s.graph.leavesFrom w top := by
  have holds : (Run.seek d).holds r := attained.kept.holds
  have seeks : r.Seeks d s := (coming_leavesBelow holds).ends h
  obtain ⟨searched, found⟩ := leavesWithin_searches (ends_leavesBelow.mp h) holds inside
  exact ⟨searched, seeks, ((Run.seek d).keeps seeks holds).1, found⟩

/-- What one search has found, another finds before it: the leaves have the same paths. -/
theorem leavesWithin_early {w' : Wildcard} (steady : r.Steady d) (inside : top < r.graph.size)
    (first : Ends (leavesWithin d w depth top) r leaves s) {leaves' : List Nat}
    (second : Ends (leavesWithin d w' depth top) s leaves' s) :
    ∃ found t, Ends (leavesWithin d w' depth top) r found t ∧
      found.map t.graph.pathOf = leaves'.map s.graph.pathOf := by
  have stand : Yields (fun _ => False) (leavesWithin d w depth top) r _ (StandAt d r) :=
    leavesWithin_stand steady inside
  obtain ⟨_, -, ⟨goes, -, -⟩⟩ := stand.ends first
  have later : Yields (fun _ => False) (leavesWithin d w' depth top) s _ (StandAt d s) :=
    leavesWithin_stand goes.steady (inside.trans_le goes.grows.size_le)
  rw [goes.site steady inside] at later
  obtain ⟨sites, found, t, ends, here, there⟩ :=
    (leavesWithin_stand steady inside).ends_of_ends later second
  have texts : ∀ (g : Graph) (l : List Nat), l.map g.pathOf = (l.map g.site).map Site.path :=
    fun g l => by
      rw [List.map_map]
      exact List.map_congr_left fun i _ => Graph.path_site.symm
  exact ⟨found, t, ends, by rw [texts, texts, here.sites, there.sites]⟩

end Build

open Build in
/-- In every run that calls lead to, those that fail included. -/
theorem Run.Attained.selected (attained : r.Attained d) (inside : top < r.graph.size)
    (h : Ends (leavesBelow d top .deep) r leaves s) : Selected d r top leaves s := by
  obtain ⟨searched, seeks, forest, rfl⟩ := leavesBelow_searches attained inside h
  have near : (s.graph.leavesFrom .deep top).filter (fun n => s.graph.IsNear top n) =
      s.graph.leavesFrom .direct top := by
    rw [forest.leavesFrom_eq, forest.leavesFrom_eq, List.filter_filter]
    refine List.filter_congr fun n _ => ?_
    rw [Bool.eq_iff_iff, Bool.and_eq_true, decide_eq_true_iff, decide_eq_true_iff,
      decide_eq_true_iff, Graph.selects_direct, and_comm]
  have deeper : r.reach ≤ s.reach := by
    have := seeks.freezes.size_le
    rw [reach, reach, seeks.advances.extent]
    omega
  constructor
  · exact forest.leavesFrom_eq top
  · exact forest.leavesFrom_eq (w := .deep) top ▸ (forest.nodup_preorder top).filter _
  · intro n
    rw [forest.leavesFrom_eq, List.mem_filter, decide_eq_true_iff, forest.mem_preorder]
    exact ⟨And.right, fun selected => ⟨selected.1.below, selected⟩⟩
  · exact fun n => searched.visited forest
  · rw [near, ends_leavesBelow]
    exact leavesWithin_of_searched (searched.direct.mono deeper) forest
  · intro found t h
    obtain ⟨-, -, forest, rfl⟩ := leavesBelow_searches attained inside h
    exact forest.leavesFrom_eq top
  · intro answered
    simp only [near, ends_leavesBelow]
    exact leavesWithin_early answered.steady inside (ends_leavesBelow.mp h)
      (leavesWithin_of_searched searched.direct forest)

/-- An object with a field of its own and an object below it. -/
def Document.nested : Document :=
  .answer (.objectSchema [("x", .typeSchema "string"),
    ("o", .objectSchema [("y", .typeSchema "string")])]) []

/-- After a path that leads nowhere, both leaves, and without those behind a property the second. -/
theorem nested_selected : ∃ r leaves s, r.Attained .nested ∧
    Ends (Build.leavesBelow .nested 0 .deep) r leaves s ∧ leaves = [6, 5] ∧
    Build.Selected .nested r 0 leaves s ∧ leaves.filter (fun n => s.graph.IsNear 0 n) = [5] := by
  have attained : Run.Attained .nested _ := .call (.resolve ⟨["get:/a", "res:404"], none⟩) .start
  have search : Ends.passes (Build.leavesBelow .nested 0 .deep)
      ((Call.resolve ⟨["get:/a", "res:404"], none⟩).after .nested (.ofDocument .nested))
      (fun leaves s => leaves == [6, 5] &&
        leaves.filter (fun n => s.graph.IsNear 0 n) == [5]) = true := by decide +kernel
  obtain ⟨leaves, s, search, found⟩ := Ends.of_passes search
  obtain ⟨all, near⟩ := Bool.and_eq_true_iff.mp found
  exact ⟨_, leaves, s, attained, search, beq_iff_eq.mp all,
    attained.selected (by decide +kernel) search, beq_iff_eq.mp near⟩

end RestGraph
