import RestGraph.Selection.Collect
import RestGraph.Proofs.Graph.Visiting

/-!
# Resolving

To follow a path or a wildcard is to visit nodes, and no more.
-/

namespace RestGraph

namespace Build

variable {d : Document} {r r' : Run} {p : SelectionPath} {i target : Nat}

theorem descend_visits {reached segments : List String}
    (h : Ends (descend d p reached i segments) r target r') (sound : r.graph.Sound) :
    r.Visits d r' := by
  induction segments generalizing reached i r with
  | nil =>
    rw [descend] at h
    obtain ⟨-, rfl⟩ := Ends.pure_iff.mp h
    exact .refl d r
  | cons segment rest ih =>
    rw [descend] at h
    simp only [Ends.bind_iff, ends_graph] at h
    obtain ⟨_, s, h, _, _, ⟨rfl, rfl⟩, h'⟩ := h
    have visits := (visit_steps h sound).1
    split at h'
    · exact visits.trans (ih h' (visits.sound sound))
    · exact absurd h' (by rw [Ends.throw_iff]; exact id)

/-- A path is followed from the root that its first segment names. -/
theorem descend_of_resolve (h : Ends (resolve d p) r target r') : ∃ reached root rest,
    root ∈ r.graph.roots ∧ Ends (descend d p reached root rest) r target r' := by
  unfold resolve at h
  simp only [Ends.bind_iff, ends_graph] at h
  obtain ⟨_, _, ⟨rfl, rfl⟩, h⟩ := h
  split at h
  · exact (Ends.throw_iff.mp h).elim
  · split at h
    · next root found => exact ⟨_, root, _, List.mem_of_find?_eq_some found, h⟩
    · exact (Ends.throw_iff.mp h).elim

theorem resolve_visits (h : Ends (resolve d p) r target r') (sound : r.graph.Sound) :
    r.Visits d r' := by
  obtain ⟨_, _, _, -, h⟩ := descend_of_resolve h
  exact descend_visits h sound

section Searches

variable {w : Wildcard} {depth c : Nat} {below : Nat → Build (List Nat)} {rest leaves : List Nat}

/-- Below no children nothing is searched. -/
theorem collectFrom_nil (h : Ends (leavesWithin.collectFrom w below []) r leaves r') :
    leaves = [] ∧ r = r' := (Ends.pure_iff.mp h).imp_left Eq.symm

/-- The search goes below a child that it enters, and leaves out one that it passes. -/
theorem enters_or_passes (h : Ends (leavesWithin.collectFrom w below (c :: rest)) r leaves r') :
    (entersChild w (r.graph.node c) = true ∧ ∃ found more s, leaves = found ++ more ∧
      Ends (below c) r found s ∧ Ends (leavesWithin.collectFrom w below rest) s more r') ∨
    (entersChild w (r.graph.node c) = false ∧
      Ends (leavesWithin.collectFrom w below rest) r leaves r') := by
  rw [leavesWithin.collectFrom] at h
  simp only [Ends.bind_iff, ends_node] at h
  obtain ⟨_, _, ⟨rfl, rfl⟩, h⟩ := h
  split at h
  · next enters =>
    simp only [Ends.bind_iff, Ends.pure_iff] at h
    obtain ⟨found, s, first, more, _, second, rfl, rfl⟩ := h
    exact .inl ⟨enters, found, more, s, rfl, first, second⟩
  · next passes =>
    simp only [Ends.bind_iff, Ends.pure_iff] at h
    obtain ⟨_, _, ⟨rfl, rfl⟩, _, _, second, rfl, rfl⟩ := h
    exact .inr ⟨Bool.eq_false_iff.mpr passes, second⟩

/-- A leaf is all that is found below it; other nodes are visited before their children are
searched. -/
theorem leaf_or_searched (h : Ends (leavesWithin d w (depth + 1) i) r leaves r') :
    ((r.graph.node i).isLeaf = true ∧ leaves = [i] ∧ r = r') ∨
    ((r.graph.node i).isLeaf = false ∧ ∃ u s, Ends (visit d i) r u s ∧
      Ends (leavesWithin.collectFrom w (leavesWithin d w depth) (s.graph.node i).children) s leaves
        r') := by
  rw [leavesWithin] at h
  simp only [Ends.bind_iff, ends_node] at h
  obtain ⟨_, _, ⟨rfl, rfl⟩, h⟩ := h
  split at h
  · next leaf =>
    obtain ⟨rfl, rfl⟩ := Ends.pure_iff.mp h
    exact .inl ⟨leaf, rfl, rfl⟩
  · next inner =>
    obtain ⟨_, s, listed, h⟩ := Ends.bind_iff.mp h
    obtain ⟨u, visit, rfl⟩ := ends_childrenOf listed
    exact .inr ⟨Bool.eq_false_iff.mpr inner, u, s, visit, h⟩

end Searches

/-- The steps are visits, and what they find are leaves. -/
structure FindsLeaves (d : Document) (r r' : Run) (leaves : List Nat) : Prop where
  visits : r.Visits d r'
  leaves : ∀ l ∈ leaves, (r'.graph.node l).isLeaf = true

theorem isLeaf_after (visits : r.Visits d r') (leaf : (r.graph.node i).isLeaf = true) :
    (r'.graph.node i).isLeaf = true := by
  have inside : i < r.graph.size := Graph.lt_size_of_ne fun e => by
    rw [e] at leaf
    cases leaf
  rwa [Node.isLeaf, visits.grows.kind inside]

theorem collectFrom_finds {w : Wildcard} {below : Nat → Build (List Nat)}
    {children leaves : List Nat}
    (finds : ∀ {c s leaves t}, Ends (below c) s leaves t → s.graph.Sound → FindsLeaves d s t leaves)
    (h : Ends (leavesWithin.collectFrom w below children) r leaves r') (sound : r.graph.Sound) :
    FindsLeaves d r r' leaves := by
  induction children generalizing leaves r with
  | nil =>
    obtain ⟨rfl, rfl⟩ := collectFrom_nil h
    exact ⟨.refl d r, fun _ none => absurd none List.not_mem_nil⟩
  | cons c rest ih =>
    obtain ⟨-, found, more, s, rfl, h, h'⟩ | ⟨-, h⟩ := enters_or_passes h
    · have first := finds h sound
      have second := ih h' (first.visits.sound sound)
      refine ⟨first.visits.trans second.visits, fun l mem => ?_⟩
      rcases List.mem_append.mp mem with mem | mem
      · exact isLeaf_after second.visits (first.leaves l mem)
      · exact second.leaves l mem
    · exact ih h sound

theorem leavesWithin_finds {w : Wildcard} {depth : Nat} {leaves : List Nat}
    (h : Ends (leavesWithin d w depth i) r leaves r') (sound : r.graph.Sound) :
    FindsLeaves d r r' leaves := by
  induction depth generalizing i leaves r r' with
  | zero => exact absurd h (by rw [leavesWithin, Ends.throw_iff]; exact id)
  | succ depth ih =>
    obtain ⟨leaf, rfl, rfl⟩ | ⟨-, _, s, visit, h'⟩ := leaf_or_searched h
    · exact ⟨.refl d r, fun l mem => List.mem_singleton.mp mem ▸ leaf⟩
    · have visits := (visit_steps visit sound).1
      have found := collectFrom_finds (fun h sound => ih h sound) h' (visits.sound sound)
      exact ⟨visits.trans found.visits, found.leaves⟩

theorem leavesBelow_finds {w : Wildcard} {leaves : List Nat}
    (h : Ends (leavesBelow d i w) r leaves r') (sound : r.graph.Sound) :
    FindsLeaves d r r' leaves := by
  unfold leavesBelow at h
  simp only [Ends.bind_iff, Ends.get_iff] at h
  obtain ⟨_, _, ⟨rfl, rfl⟩, h⟩ := h
  exact leavesWithin_finds h sound

theorem resolveLeaves_finds {leaves : List Nat} (h : Ends (resolveLeaves d p) r leaves r')
    (sound : r.graph.Sound) : FindsLeaves d r r' leaves := by
  unfold resolveLeaves at h
  simp only [Ends.bind_iff] at h
  obtain ⟨target, s, h, h'⟩ := h
  have visits := resolve_visits h sound
  have after : ∀ {w}, Ends (leavesBelow d target w) s leaves r' → FindsLeaves d r r' leaves :=
    fun h' => by
      have found := leavesBelow_finds h' (visits.sound sound)
      exact ⟨visits.trans found.visits, found.leaves⟩
  split at h' <;> exact after h'

/-- Below a leaf the search finds the leaf. -/
theorem ends_leavesWithin_leaf {w : Wildcard} {depth l : Nat}
    (leaf : (r.graph.node l).isLeaf = true) : Ends (leavesWithin d w (depth + 1) l) r [l] r := by
  rw [leavesWithin]
  refine Ends.bind_iff.mpr ⟨_, _, ends_node.mpr ⟨rfl, rfl⟩, ?_⟩
  rw [if_pos leaf]
  exact Ends.pure_iff.mpr ⟨rfl, rfl⟩

/-- A collection is made by visits; then the filter is set. -/
theorem ends_collect {selections : List String} {c : Collection} :
    Ends (collect d selections) r c r' ↔ ∃ c₀ s,
      Ends (collectPaths d .empty selections) r c₀ s ∧ c = c₀.inRootOrder s.graph ∧
        r' = s.setFilter (PathFilter.ofPaths c.paths) := by
  unfold collect
  simp only [Ends.bind_iff, ends_graph, Ends.modify_iff, Ends.pure_iff]
  constructor
  · rintro ⟨c₀, s, h, _, _, ⟨rfl, rfl⟩, _, _, rfl, rfl, rfl⟩
    exact ⟨c₀, s, h, rfl, rfl⟩
  · rintro ⟨c₀, s, h, rfl, rfl⟩
    exact ⟨c₀, s, h, s.graph, s, ⟨rfl, rfl⟩, ⟨⟩, _, rfl, rfl, rfl⟩

end Build

end RestGraph
