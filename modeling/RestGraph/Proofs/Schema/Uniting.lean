import RestGraph.Proofs.Graph.Nearest
import RestGraph.Proofs.Schema.Guided
import RestGraph.Proofs.Schema.Session
import RestGraph.Proofs.Text.Sorting

/-!
# The union of branches

Merging a composition for the first time, where no composition below it was merged before, gives it
the fields of all objects below it: the names in their order, each bound to what the nearest of
these objects has under it. To merge it again changes nothing.
-/

namespace RestGraph

variable {d : Document} {r s : Run} {c : Nat} {found : List Nat}

/-- The composition is the union of the branches that were found. Fields that the filter forbids
count for nothing, unless an argument is being built. -/
structure Run.Unites (s : Run) (c : Nat) (found : List Nat) : Prop where
  nodup : found.Nodup
  branches : ∀ b, b ∈ found ↔ s.graph.Branch c b ∧ (s.graph.node b).isProperty = false
  names : ∀ name, name ∈ (s.graph.node c).props.map Prod.fst ↔
    ∃ b ∈ found, (s.graph.node b).kind.tag = .object ∧
      name ∈ (s.offered s.isFiltering b).map Prod.fst
  increasing : ((s.graph.node c).props.map Prod.fst).Pairwise fun a b =>
    Text.compareNames a b = .lt
  /-- Of all objects that have the name, it is bound to what the least deep and leftmost one has. -/
  nearest : ∀ name prop, (name, prop) ∈ (s.graph.node c).props → ∃ path b,
    s.graph.BranchAt c path b ∧ (s.graph.node b).kind.tag = .object ∧
    (name, prop) ∈ s.offered s.isFiltering b ∧
    ∀ path' b', s.graph.BranchAt c path' b' → (s.graph.node b').kind.tag = .object →
      name ∈ (s.offered s.isFiltering b').map Prod.fst →
      path' = path ∧ b' = b ∨ List.Shortlex (· < ·) path path'

/-- Only objects offer fields where no composition was merged. -/
theorem Run.Unmixed.object_of_offered {filtering : Bool} {b : Nat} {x : String × Nat}
    (unmixed : s.Unmixed c) (sound : s.graph.Sound) (branch : s.graph.Branch c b)
    (offered : x ∈ s.offered filtering b) : (s.graph.node b).kind.tag = .object := by
  have field := (List.mem_filter.mp offered).1
  cases composition : (s.graph.node b).kind.isComposition with
  | false => exact (sound.own composition field).1
  | true =>
    rw [sound.unmerged] at field
    · cases field
    · rw [Node.isMerged, composition, unmixed b branch composition]
      rfl

theorem Run.MergedAt.unites (merged : s.MergedAt c found) (sound : s.graph.Sound)
    (composition : (s.graph.node c).kind.isComposition = true) (unmixed : s.Unmixed c) :
    s.Unites c found := by
  have perm := Text.sortByName_perm Prod.fst (Graph.addOffers (s.offered s.isFiltering) [] found)
  have object : ∀ {b x}, b ∈ found → x ∈ s.offered s.isFiltering b →
      (s.graph.node b).kind.tag = .object := fun mem =>
    unmixed.object_of_offered sound ((merged.branch _).mp mem)
  obtain ⟨-, ordered⟩ := merged.walks.ordered sound
    (.start (Kind.expands_of_isComposition composition))
  refine ⟨merged.nodup, fun b => ?_, fun name => ?_, ?_, fun name prop field => ?_⟩
  · refine (merged.branch b).trans ⟨fun branch => ⟨branch, ?_⟩, And.left⟩
    obtain ⟨a, -, edge⟩ := Relation.TransGen.tail'_iff.mp branch
    simpa using (List.mem_filter.mp (Build.mem_branchesBelow sound edge)).2
  · rw [merged.props, (perm.map Prod.fst).mem_iff, Graph.mem_keys_addOffers,
      List.map_nil, or_iff_right List.not_mem_nil]
    refine exists_congr fun b => and_congr_right fun mem =>
      ⟨fun offered => ⟨?_, offered⟩, And.right⟩
    obtain ⟨x, offered, -⟩ := List.mem_map.mp offered
    exact object mem offered
  · rw [merged.props]
    exact Text.sortByName_increasing (Graph.nodup_keys_addOffers .nil)
  · rw [merged.props, perm.mem_iff] at field
    obtain none | ⟨before, b, after, rfl, offered, -, first⟩ := Graph.mem_addOffers field
    · cases none
    have mem : b ∈ before ++ b :: after := List.mem_append_right _ List.mem_cons_self
    obtain ⟨path, here⟩ := Graph.BranchAt.of_branch ((merged.branch b).mp mem)
    refine ⟨path, b, here, object mem offered, offered, fun path' b' there other named => ?_⟩
    have branch : s.graph.Branch c b' := there.eq_or_branch.resolve_left fun ⟨_, same⟩ => by
      rw [same] at other
      exact Kind.not_object_of_isComposition composition other
    rcases List.mem_append.mp ((merged.branch b').mpr branch) with early | late
    · exact absurd named (first b' early)
    rcases List.mem_cons.mp late with rfl | late
    · exact .inl ⟨there.unique sound here, rfl⟩
    · obtain ⟨p, q, here', there', less⟩ :=
        (List.pairwise_cons.mp (List.pairwise_append.mp ordered).2.1).1 b' late
      rw [here'.unique sound here, there'.unique sound there] at less
      exact .inr less

/-- Whatever calls were made before, as long as none of them merged a composition below. -/
theorem Run.Guided.consolidate_unites (guided : r.Guided d)
    (composition : (r.graph.node c).kind.isComposition = true)
    (fresh : (r.graph.node c).consolidated = false) (unmixed : r.Unmixed c)
    (h : Ends (Build.consolidate d c) r found s) :
    s.Unites c found ∧ s.isFiltering = r.isFiltering ∧
      Ends (Build.consolidate d c) s found s := by
  have sound := guided.sound
  have drafts := (Build.consolidate_drafts h sound composition).1
  have merged := Build.consolidate_mergedAt h sound composition fresh
  have inside : c < r.graph.size := Graph.lt_size_of_ne fun e => by
    rw [e] at composition
    cases composition
  have composition' : (s.graph.node c).kind.isComposition = true := by
    rwa [drafts.grows.kind inside]
  exact ⟨merged.unites (drafts.sound sound) composition'
    (Build.unmixed_consolidate h sound composition unmixed),
    Run.isFiltering_congr drafts.filter drafts.stack, merged.again d⟩

/-- A composition of a component, of a composition and of an object, where names are shared. -/
def Document.layered : Document :=
  .answer (.allOfSchema [.refSchema "Base",
      .allOfSchema [.objectSchema [("p", .typeSchema "integer")]],
      .objectSchema [("p", .typeSchema "boolean"), ("q", .typeSchema "string")]])
    [("Base",
      .allOfSchema [.objectSchema [("q", .typeSchema "integer"), ("o", .typeSchema "string")]])]

/-- Of the fields of the object right below the composition only the first is requested, and of
those of the component only the last. So the name of the second goes to the component. -/
theorem layered_unites : ∃ r s : Run, r.Guided .layered ∧ r.isFiltering = true ∧
    (r.graph.node 2).kind.isComposition = true ∧ (r.graph.node 2).consolidated = false ∧
    r.Unmixed 2 ∧ Ends (Build.consolidate .layered 2) r [3, 8, 11, 4, 9, 5] s ∧
    s.Unites 2 [3, 8, 11, 4, 9, 5] ∧ (s.graph.node 2).props = [("p", 12), ("q", 7)] := by
  let visited :=
    (Call.visit 1).after .layered ((Call.visit 0).after .layered (.ofDocument .layered))
  let r := visited.setFilter (.ofPaths [visited.graph.pathOf 7, visited.graph.pathOf 12])
  have guided : visited.Guided .layered :=
    .call (.visit 1) (fun _ other => by cases other)
      (.call (.visit 0) (fun _ other => by cases other) .start)
  have guided : r.Guided .layered := guided.setFilter _
  have merge : Ends.passes (Build.consolidate .layered 2) r (fun found s =>
      r.isFiltering && (r.graph.node 2).kind.isComposition && !(r.graph.node 2).consolidated &&
        (List.range r.graph.size).all (fun b => !(r.graph.node b).consolidated) &&
        found == [3, 8, 11, 4, 9, 5] && (s.graph.node 2).props == [("p", 12), ("q", 7)]) =
          true := by
    decide +kernel
  clear_value r
  obtain ⟨_, s, merge, found⟩ := Ends.of_passes merge
  simp only [Bool.and_eq_true, beq_iff_eq, Bool.not_eq_true', List.all_eq_true,
    List.mem_range] at found
  obtain ⟨⟨⟨⟨⟨filtering, composition⟩, fresh⟩, unmixed⟩, rfl⟩, props⟩ := found
  have unmixed : r.Unmixed 2 := fun b branch _ => unmixed b (branch.lt_size guided.sound)
  exact ⟨r, s, guided, filtering, composition, fresh, unmixed, merge,
    (guided.consolidate_unites composition fresh unmixed merge).1, props⟩

end RestGraph
