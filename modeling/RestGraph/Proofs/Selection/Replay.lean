import RestGraph.Proofs.Schema.Session
import RestGraph.Proofs.Selection.Settled

/-!
# Collecting again

The paths of a collection, collected again from the first graph, lead to the same run and the same
collection. Leaf by leaf the second run makes the visits of the first; a leaf that comes again
changes nothing, neither the run nor the collection.
-/

namespace RestGraph

variable {d : Document} {r s t : Run} {c c' : Collection} {l : Nat}

namespace Build

/-- A leaf that is reached by visits is added by collecting its path, or was there. -/
theorem collectPaths_leaf (walks : Walks d r [l] s) (reached : r.Reached d)
    (keys : d.HasDistinctKeys) (addressable : s.graph.Addressable l) (settled : c.Settled r.graph) :
    ∃ new, (c.addLeaf s.graph l).paths = c.paths ++ new ∧
      Ends (collectPaths d c new) r (c.addLeaf s.graph l) s := by
  have visits := walks.visits
  rw [List.flatMap_cons, List.flatMap_nil, List.append_nil] at visits
  have steps := walks.steps reached.sound
  have moves := (reached.visits steps).moves
  by_cases old : l ∈ c.leaves
  · rw [steps.grows.above (settled.inside l (settled.leaves l old))] at visits
    obtain ⟨-, rfl⟩ := visits.unique
      (forM_of_visited fun a high => settled.above l old a (Graph.mem_above.mp high))
    rw [Collection.addLeaf_of_settled settled old]
    exact ⟨[], (List.append_nil _).symm, rfl⟩
  · have text : s.graph.pathOf l ∉ c.paths := by
      rw [settled.texts, Collection.mem_foldl_addNew]
      rintro (none | known)
      · cases none
      · obtain ⟨l', mem, same⟩ := List.mem_map.mp known
        have inside := settled.inside l' (settled.leaves l' mem)
        rw [← steps.grows.pathOf inside] at same
        have other := (settled.texts_apart l' mem).grow reached.sound steps.grows
          (steps.sound reached.sound)
        rw [(other.addressed moves keys).eq_of_pathOf (addressable.addressed moves keys)
          same] at mem
        exact old mem
    refine ⟨[s.graph.pathOf l], ?_, ?_⟩
    · rw [Collection.addLeaf_eq, Collection.addNew, if_neg fun known =>
        text (List.contains_iff_mem.mp known)]
    · have path := Graph.pathOf_segments addressable.plain
      have some : (SelectionPath.ofText (s.graph.pathOf l)).isEmpty = false := by
        rw [path, SelectionPath.isEmpty, List.isEmpty_eq_false_iff]
        exact fun none => s.graph.chain_ne_nil l (List.map_eq_nil_iff.mp none)
      have target := ends_resolve_pathOf visits reached.sound reached.rooted.inside
        (addressable.addressed moves keys)
      have found : Ends (resolveLeaves d (.ofText (s.graph.pathOf l))) r [l] s := by
        refine Ends.bind_iff.mpr ⟨l, s, target, ?_⟩
        rw [path]
        exact Ends.bind_iff.mpr ⟨s, s, Ends.get_iff.mpr ⟨rfl, rfl⟩,
          ends_leavesWithin_leaf (walks.leaf l List.mem_cons_self)⟩
      rw [collectPaths]
      simp only [some, Bool.false_eq_true, if_false, Ends.bind_iff, ends_graph]
      exact ⟨[l], s, found, s.graph, s, ⟨rfl, rfl⟩, rfl⟩

theorem collectPaths_append {front rest : List String} {b : Collection}
    (first : Ends (collectPaths d c front) r b t) (later : Ends (collectPaths d b rest) t c' s) :
    Ends (collectPaths d c (front ++ rest)) r c' s := by
  induction front generalizing c r with
  | nil =>
    obtain ⟨rfl, rfl⟩ := Ends.pure_iff.mp first
    exact later
  | cons text more ih =>
    rw [collectPaths] at first
    rw [List.cons_append, collectPaths]
    split at first
    · next skipped =>
      rw [if_pos skipped]
      exact ih first
    · next read =>
      simp only [read, Bool.false_eq_true, if_false, Ends.bind_iff, ends_graph] at first ⊢
      obtain ⟨leaves, u, found, g, v, same, rest⟩ := first
      exact ⟨leaves, u, found, g, v, same, ih rest⟩

/-- The leaves of one path, path by path. The second run adds each leaf to a graph that has not seen
the visits for the leaves after it, which makes no difference. -/
theorem collectPaths_leaves {leaves : List Nat} (walks : Walks d r leaves s) (reached : r.Reached d)
    (keys : d.HasDistinctKeys) (addressable : ∀ l ∈ leaves, s.graph.Addressable l)
    (apart : ∀ l ∈ leaves, ∀ l' ∈ leaves, l ∉ s.graph.ancestors l') (settled : c.Settled r.graph) :
    (∃ new, (leaves.foldl (Collection.addLeaf s.graph) c).paths = c.paths ++ new ∧
      Ends (collectPaths d c new) r (leaves.foldl (Collection.addLeaf s.graph) c) s) ∧
      (leaves.foldl (Collection.addLeaf s.graph) c).Settled s.graph := by
  induction leaves generalizing r c with
  | nil =>
    obtain rfl := Ends.forM_nil_iff.mp walks.visits
    exact ⟨⟨[], (List.append_nil _).symm, rfl⟩, settled⟩
  | cons l rest ih =>
    obtain ⟨t, first, later, inside⟩ := walks.uncons reached
    have reached' := reached.visits (first.steps reached.sound)
    have sound := reached'.sound
    have steps := later.steps sound
    have addressable' := (addressable l List.mem_cons_self).of_grow steps.grows sound inside
    have keeps := forM_keeps later.visits sound inside (first.above l List.mem_cons_self)
      fun x mem => by
        obtain ⟨l', mem, high⟩ := List.mem_flatMap.mp mem
        have other := apart l List.mem_cons_self l' (List.mem_cons_of_mem _ mem)
        have high := Graph.mem_above.mp high
        exact ⟨fun e => other (e ▸ high), fun under => other (Graph.mem_ancestors_trans under high)⟩
    have same : c.addLeaf s.graph l = c.addLeaf t.graph l :=
      Collection.addLeaf_congr steps.grows inside (reached'.targetOf_eq steps inside keeps)
    obtain ⟨new, paths, run⟩ := collectPaths_leaf first reached keys addressable' settled
    rw [List.foldl_cons, same]
    obtain ⟨⟨more, paths', run'⟩, settled'⟩ := ih later reached'
      (fun l mem => addressable l (List.mem_cons_of_mem _ mem))
      (fun l mem l' mem' => apart l (List.mem_cons_of_mem _ mem) l' (List.mem_cons_of_mem _ mem'))
      (settled.addLeaf first reached addressable')
    refine ⟨⟨new ++ more, ?_, collectPaths_append run run'⟩, settled'⟩
    rw [paths', paths, List.append_assoc]

/-- What some selections add to a collection, their paths add by the same run. -/
theorem collectPaths_replays {selections : List String}
    (h : Ends (collectPaths d c selections) r c' s) (reached : r.Reached d)
    (keys : d.HasDistinctKeys) (refs : d.RepeatsNoBranch)
    (deep : ∀ text ∈ selections, (SelectionPath.ofText text).wildcard ≠ some .direct)
    (plain : ∀ i < s.graph.size, IsPlainId (s.graph.idAt i)) (settled : c.Settled r.graph) :
    ∃ new, c'.paths = c.paths ++ new ∧ Ends (collectPaths d c new) r c' s := by
  induction selections generalizing c r with
  | nil =>
    obtain ⟨rfl, rfl⟩ := Ends.pure_iff.mp h
    exact ⟨[], (List.append_nil _).symm, rfl⟩
  | cons text rest ih =>
    have deep' := fun other mem => deep other (List.mem_cons_of_mem text mem)
    rw [collectPaths] at h
    split at h
    · exact ih h reached deep' settled
    · simp only [Ends.bind_iff, ends_graph] at h
      obtain ⟨leaves, t, found, _, _, ⟨rfl, rfl⟩, h⟩ := h
      obtain ⟨visits, leaf⟩ := resolveLeaves_finds found reached.sound
      have reached' := reached.visits visits
      have grows := (collectPaths_sound h reached'.sound
        ((settled.toSound.grow visits.grows).addLeaves leaf)).1.grows
      have plain' : ∀ i < t.graph.size, IsPlainId (t.graph.idAt i) := fun i inside => by
        rw [← grows.idAt inside]
        exact plain i (inside.trans_le grows.size_le)
      obtain ⟨-, walks, addressable, apart⟩ :=
        resolveLeaves_walks found (deep text List.mem_cons_self) reached keys refs plain'
      obtain ⟨⟨new, paths, run⟩, settled'⟩ :=
        collectPaths_leaves walks reached keys addressable apart settled
      obtain ⟨more, paths', run'⟩ := ih h reached' deep' settled'
      refine ⟨new ++ more, ?_, collectPaths_append run run'⟩
      rw [paths', paths, List.append_assoc]

end Build

theorem Collection.settled_empty (g : Graph) : empty.Settled g where
  toSound := .empty g
  texts_apart _ none := absurd none List.not_mem_nil
  above _ none := absurd none List.not_mem_nil
  all_enums _ none := absurd none List.not_mem_nil
  shown _ none := absurd none List.not_mem_nil

/-- The paths of a collection, collected from the first graph, lead to the same run, warnings and
filter included, and to the same collection, so that the same schema is generated. -/
theorem Collection.paths_replay {selections : List String}
    (h : Ends (Build.collect d selections) (.ofDocument d) c r) (keys : d.HasDistinctKeys)
    (refs : d.RepeatsNoBranch)
    (deep : ∀ text ∈ selections, (SelectionPath.ofText text).wildcard ≠ some .direct)
    (plain : ∀ i < r.graph.size, IsPlainId (r.graph.idAt i)) :
    Ends (Build.collect d c.paths) (.ofDocument d) c r ∧
      ∀ s, (Build.collect d c.paths >>= fun c => Build.generate d c s).run (.ofDocument d) =
        (Build.collect d selections >>= fun c => Build.generate d c s).run (.ofDocument d) := by
  have replay : Ends (Build.collect d c.paths) (.ofDocument d) c r := by
    obtain ⟨c₀, s, collected, rfl, rfl⟩ := Build.ends_collect.mp h
    obtain ⟨new, paths, again⟩ := Build.collectPaths_replays collected (.ofDocument d)
      keys refs deep plain (settled_empty _)
    obtain rfl : c₀.paths = new := paths
    exact Build.ends_collect.mpr ⟨c₀, s, again, rfl, rfl⟩
  exact ⟨replay, fun s => by rw [replay.run_bind_of_ends, h.run_bind_of_ends]⟩

/-- An object with a field of its own and two that refer to components, an enum and an object. -/
def Document.mixed : Document :=
  .answer (.objectSchema [("x", .typeSchema "string"), ("e", .refSchema "E"),
    ("f", .refSchema "F")])
    [("E", .object [("type", .text "string"), ("enum", .list [.text "A", .text "B"])]),
      ("F", .objectSchema [("y", .typeSchema "string")])]

/-- One field by its path, then all below the operation. -/
theorem mixed_paths_replay : ∃ c r,
    Ends (Build.collect .mixed ["get:/a>res:200>obj:[aResponse]>prop:scalar:x", "get:/a>**"])
      (.ofDocument .mixed) c r ∧ c.paths.length = 3 ∧
    Ends (Build.collect .mixed c.paths) (.ofDocument .mixed) c r := by
  have run : Ends.passes
      (Build.collect .mixed ["get:/a>res:200>obj:[aResponse]>prop:scalar:x", "get:/a>**"])
      (.ofDocument .mixed) (fun c r => decide (c.paths.length = 3 ∧
        ∀ i < r.graph.size, IsPlainId (r.graph.idAt i))) = true := by decide +kernel
  obtain ⟨c, r, collected, facts⟩ := Ends.of_passes run
  obtain ⟨paths, plain⟩ := of_decide_eq_true facts
  exact ⟨c, r, collected, paths, (Collection.paths_replay collected (by decide +kernel)
    (by decide +kernel) (by decide +kernel) plain).1⟩

end RestGraph
