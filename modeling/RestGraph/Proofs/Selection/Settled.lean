import RestGraph.Proofs.Selection.Walks

/-!
# Settled collections

A leaf that comes again adds nothing to a collection, and visits that are made elsewhere make no
difference to what a leaf adds.
-/

namespace RestGraph

variable {d : Document} {g h : Graph} {r s : Run} {c : Collection} {i l a e : Nat}

/-! ## What visits elsewhere leave alone -/

namespace Graph

/-- At and below the node nothing was visited. -/
def Keeps (g h : Graph) (l : Nat) : Prop :=
  ∀ o < g.size, o = l ∨ l ∈ g.ancestors o → (h.node o).visited = true → (g.node o).visited = true

end Graph

@[simp] theorem Node.not_isHollow_of_isWrapper {n : Node} (wrapper : n.kind.isWrapper = true) :
    n.isHollow = false := by
  unfold Node.isHollow
  cases kind : n.kind with
  | reference => rfl
  | property shape =>
    rw [kind] at wrapper
    cases shape <;> first | rfl | cases wrapper
  | _ => first | rfl | (rw [kind] at wrapper; cases wrapper)

/-- A reference that is not visited stays without a child, so the target stays. -/
theorem Run.Reached.targetOf_eq (reached : r.Reached d) (visits : r.Visits d s)
    (inside : l < r.graph.size) (keeps : r.graph.Keeps s.graph l) :
    s.graph.targetOf l = r.graph.targetOf l := by
  have sound := reached.sound
  have grows := visits.grows
  fun_induction Graph.targetOf r.graph l with
  | case1 l wrapper c bounds first ih =>
    obtain ⟨rest, children⟩ := Graph.firstBelow?_eq_some first
    have child : c ∈ (r.graph.node l).children := children ▸ List.mem_cons_self
    obtain ⟨more, grown⟩ := (grows.keeps inside).children
    have below : (s.graph.node l).children = c :: (rest ++ more) := by
      rw [← grown, children, List.cons_append]
    rw [Graph.targetOf_of_first ((grows.keeps inside).kind.isWrapper.trans wrapper) below
      ⟨bounds.1, bounds.2.trans_le grows.size_le⟩]
    refine ih bounds.2 fun o old under => keeps o old (.inr ?_)
    have above : l ∈ r.graph.ancestors c := by
      rw [sound.ancestors_of_child child]
      exact List.mem_cons_self
    rcases under with rfl | under
    · exact above
    · exact Graph.mem_ancestors_trans above under
  | case2 l wrapper first =>
    have childless : (r.graph.node l).children = [] := by
      cases children : (r.graph.node l).children with
      | nil => rfl
      | cons c rest =>
        have bounds := sound.below (children ▸ List.mem_cons_self : c ∈ (r.graph.node l).children)
        rw [Graph.firstBelow?_of_cons children bounds] at first
        cases first
    refine Graph.targetOf_of_childless ?_
    have due : ¬((r.graph.node l).kind.isEager = true ∨ (r.graph.node l).visited = true) :=
      fun due =>
      reached.fed l inside due (Node.not_isHollow_of_isWrapper wrapper) childless
    rw [not_or, Bool.not_eq_true, Bool.not_eq_true] at due
    refine (visits.sound sound).late ((grows.keeps inside).kind.isEager.trans due.1) ?_
    rw [Bool.eq_false_iff]
    intro done
    rw [keeps l inside (.inl rfl) done] at due
    cases due.2
  | case3 l other =>
    refine Graph.targetOf_of_end ?_
    rw [(grows.keeps inside).kind.isWrapper]
    exact Bool.eq_false_iff.mpr other

namespace Build

/-- Visits to nodes that stand neither at nor below a node leave alone what does, if the nodes above
have been visited. -/
theorem forM_keeps {nodes : List Nat} (visited : Ends (nodes.forM (visit d)) r ⟨⟩ s)
    (sound : r.graph.Sound) (inside : l < r.graph.size)
    (above : ∀ a ∈ r.graph.ancestors l, (r.graph.node a).visited = true)
    (apart : ∀ x ∈ nodes, x ≠ l ∧ l ∉ s.graph.ancestors x) : r.graph.Keeps s.graph l := by
  induction nodes generalizing r with
  | nil =>
    obtain rfl := Ends.forM_nil_iff.mp visited
    exact fun _ _ _ => id
  | cons x rest ih =>
    obtain ⟨t, first, later⟩ := Ends.forM_cons_iff.mp visited
    have visit := visit_at first sound
    have sound' := visit.sound sound
    have grows := (forM_visits later sound').grows
    have old := visit.grows.ancestors inside
    have keeps := ih later sound' (inside.trans_le visit.grows.size_le)
      (fun a high => by
        rw [old] at high
        exact (visit.grows.keeps ((Graph.lt_of_mem_ancestors high).trans inside)).visited
          (above a high))
      fun x mem => apart x (List.mem_cons_of_mem _ mem)
    intro o lt under done
    have under' : o = l ∨ l ∈ t.graph.ancestors o := by rwa [visit.grows.ancestors lt]
    have done := keeps o (lt.trans_le visit.grows.size_le) under' done
    obtain ⟨other, apart⟩ := apart x List.mem_cons_self
    by_cases seen : x ∈ r.graph.ancestors l
    · -- a node above has been visited, so nothing happens
      obtain ⟨-, rfl⟩ := first.unique (ends_visit_of_visited (above x seen))
      exact done
    · have same : ∀ {y}, y < r.graph.size → s.graph.ancestors y = r.graph.ancestors y := fun lt =>
        (forM_visits visited sound).grows.ancestors lt
      refine visit.spares o lt ?_ (fun high => ?_) done
      · rintro rfl
        rcases under with rfl | under
        · exact other rfl
        · exact apart (same lt ▸ under)
      · rcases under with rfl | under
        · exact seen high
        · rcases Graph.ancestors_linear high under with rfl | high' | low
          · exact other rfl
          · exact seen high'
          · exact apart (same ((Graph.lt_of_mem_ancestors high).trans lt) ▸ low)

end Build

/-! ## Leaves that add nothing -/

/-- The leaves of a collection have nothing to add to it. -/
structure Collection.Settled (g : Graph) (c : Collection) : Prop extends c.Sound g where
  texts_apart : ∀ l ∈ c.leaves, g.Addressable l
  above : ∀ l ∈ c.leaves, ∀ a ∈ g.ancestors l, (g.node a).visited = true
  all_enums : ∀ i ∈ c.selected, (g.node i).kind.tag = .enum → i ∈ c.enums
  shown : ∀ l ∈ c.leaves, ∀ e ∈ Collection.shownEnum? g l, e ∈ c.enums

namespace Collection

@[simp]
theorem addNew_of_mem {α : Type} [BEq α] [LawfulBEq α] {xs : List α} {x : α} (mem : x ∈ xs) :
    addNew xs x = xs := by
  rw [addNew, if_pos (List.contains_iff_mem.mpr mem)]

@[simp] theorem foldl_addNew_of_subset {α : Type} [BEq α] [LawfulBEq α] {before xs : List α}
    (sub : ∀ x ∈ xs, x ∈ before) : xs.foldl addNew before = before := by
  induction xs with
  | nil => rfl
  | cons x xs ih =>
    rw [List.foldl_cons, addNew_of_mem (sub x List.mem_cons_self)]
    exact ih fun y mem => sub y (List.mem_cons_of_mem x mem)

@[simp] theorem foldl_addIf_of_subset {test : Nat → Bool} {before xs : List Nat}
    (sub : ∀ x ∈ xs, test x = true → x ∈ before) : xs.foldl (addIf test) before = before := by
  induction xs with
  | nil => rfl
  | cons x xs ih =>
    have here : addIf test before x = before := by
      unfold addIf
      split
      · next passed => exact addNew_of_mem (sub x List.mem_cons_self passed)
      · rfl
    rw [List.foldl_cons, here]
    exact ih fun y mem => sub y (List.mem_cons_of_mem x mem)

/-- A leaf that is there is not added again. -/
@[simp]
theorem addLeaf_of_settled (settled : c.Settled g) (mem : l ∈ c.leaves) : c.addLeaf g l = c := by
  have own := settled.leaves l mem
  have way : ∀ i ∈ g.chain l, i ∈ c.selected := fun i high => by
    rcases Graph.mem_chain.mp high with rfl | high
    · exact own
    · exact settled.upward l own i high
  have path : g.pathOf l ∈ c.paths := by
    rw [settled.texts]
    exact mem_foldl_addNew.mpr (.inr (List.mem_map_of_mem mem))
  rw [addLeaf_eq, addNew_of_mem path, addNew_of_mem mem, foldl_addNew_of_subset way,
    addNew_of_mem (settled.roots l mem),
    foldl_addIf_of_subset fun i high => settled.all_containers i (way i high),
    foldl_addIf_of_subset fun i high tag => settled.all_enums i (way i high) (beq_iff_eq.mp tag),
    foldl_addNew_of_subset fun e shown => settled.shown l mem e (Option.mem_toList.mp shown)]

theorem shownEnum?_congr {busy : Set Nat} (step : g.Grows busy h) (inside : l < g.size)
    (target : h.targetOf l = g.targetOf l) : shownEnum? h l = shownEnum? g l := by
  unfold shownEnum?
  rw [step.kind inside, target, step.kind (Graph.targetOf_lt inside)]

/-- In a graph that has grown elsewhere, a leaf adds the same. -/
theorem addLeaf_congr {busy : Set Nat} (step : g.Grows busy h) (inside : l < g.size)
    (target : h.targetOf l = g.targetOf l) : c.addLeaf h l = c.addLeaf g l := by
  have chain : h.chain l = g.chain l := by rw [Graph.chain, Graph.chain, step.ancestors inside]
  have kinds : ∀ i ∈ g.chain l, (h.node i).kind = (g.node i).kind := fun i high => by
    rcases Graph.mem_chain.mp high with rfl | high
    · exact step.kind inside
    · exact step.kind ((Graph.lt_of_mem_ancestors high).trans inside)
  have root : h.rootOf l = g.rootOf l := by rw [Graph.rootOf, Graph.rootOf, step.ancestors inside]
  have containers : (g.chain l).foldl (addIf fun i => (h.node i).kind.isContainer) c.containers =
      (g.chain l).foldl (addIf fun i => (g.node i).kind.isContainer) c.containers :=
    List.foldl_ext _ _ _ fun xs i high => by rw [addIf, addIf, kinds i high]
  have enums : (g.chain l).foldl (addIf fun i => (h.node i).kind.tag == .enum) c.enums =
      (g.chain l).foldl (addIf fun i => (g.node i).kind.tag == .enum) c.enums :=
    List.foldl_ext _ _ _ fun xs i high => by rw [addIf, addIf, kinds i high]
  rw [addLeaf_eq, addLeaf_eq, step.pathOf inside, root, chain, containers, enums,
    shownEnum?_congr step inside target]

theorem shownEnum?_eq_some (shown : shownEnum? g l = some e) :
    (g.node e).kind.tag = .enum ∧ e = g.targetOf l := by
  unfold shownEnum? at shown
  split at shown
  · split at shown
    · next enum =>
      cases shown
      exact ⟨beq_iff_eq.mp enum, rfl⟩
    · cases shown
  · cases shown

/-- A leaf that was reached settles a collection again. -/
theorem Settled.addLeaf (settled : c.Settled r.graph) (walks : Build.Walks d r [l] s)
    (reached : r.Reached d) (addressable : s.graph.Addressable l) :
    (c.addLeaf s.graph l).Settled s.graph := by
  have steps := walks.steps reached.sound
  have grows := steps.grows
  have sound := steps.sound reached.sound
  have leaf := walks.leaf l List.mem_cons_self
  have visits := walks.visits
  rw [List.flatMap_cons, List.flatMap_nil, List.append_nil] at visits
  have old : ∀ l' ∈ c.leaves, l' < r.graph.size := fun l' mem =>
    settled.inside l' (settled.leaves l' mem)
  have leaves : ∀ l' ∈ (c.addLeaf s.graph l).leaves, l' ∈ c.leaves ∨ l' = l := fun l' mem => by
    rwa [addLeaf_eq, mem_addNew] at mem
  have selected : ∀ i ∈ (c.addLeaf s.graph l).selected, i ∈ c.selected ∨ i ∈ s.graph.chain l :=
    fun i mem => by rwa [addLeaf_eq, mem_foldl_addNew] at mem
  have enums : ∀ i, (i ∈ c.enums ∨ i ∈ s.graph.chain l ∧ (s.graph.node i).kind.tag = .enum) ∨
      i ∈ shownEnum? s.graph l → i ∈ (c.addLeaf s.graph l).enums := fun i mem => by
    rw [addLeaf_eq, mem_foldl_addNew, mem_foldl_addIf, beq_iff_eq, Option.mem_toList]
    exact mem
  refine ⟨(settled.toSound.grow grows).addLeaf leaf, ?_, ?_, ?_, ?_⟩
  case refine_1 =>
    intro l' mem
    rcases leaves l' mem with mem | rfl
    · exact (settled.texts_apart l' mem).grow reached.sound grows sound
    · exact addressable
  case refine_2 =>
    intro l' mem a high
    rcases leaves l' mem with mem | rfl
    · rw [grows.ancestors (old l' mem)] at high
      exact (grows.keeps ((Graph.lt_of_mem_ancestors high).trans (old l' mem))).visited
        (settled.above l' mem a high)
    · exact walks.above l' List.mem_cons_self a high
  case refine_3 =>
    intro i mem enum
    refine enums i (.inl ((selected i mem).imp (fun mem => ?_) fun high => ⟨high, enum⟩))
    rw [grows.kind (settled.inside i mem)] at enum
    exact settled.all_enums i mem enum
  case refine_4 =>
    intro l' mem e shown
    rcases leaves l' mem with mem | rfl
    · by_cases below : l' ∈ s.graph.ancestors l
      · -- the way from the property to the leaf is the one to its enum
        obtain ⟨enum, rfl⟩ := shownEnum?_eq_some shown
        obtain ⟨target, plain⟩ :=
          sound.targetOf_of_below (sound.childless_of_enum enum) below
        have here : s.graph.targetOf l = l := by
          refine Graph.targetOf_of_end ?_
          rw [Node.isLeaf] at leaf
          rw [Node.isProperty] at plain
          cases kind : (s.graph.node l).kind <;> rw [kind] at leaf plain <;>
            first | rfl | cases leaf | cases plain
        rw [← target, here] at enum ⊢
        exact enums l (.inl (.inr ⟨Graph.mem_chain.mpr (.inl rfl), enum⟩))
      · have keeps := Build.forM_keeps visits reached.sound (old l' mem) (settled.above l' mem)
          fun x high => by
            have high := Graph.mem_above.mp high
            exact ⟨fun e => below (e ▸ high), fun under =>
              below (Graph.mem_ancestors_trans under high)⟩
        rw [shownEnum?_congr grows (old l' mem)
          (reached.targetOf_eq steps (old l' mem) keeps)] at shown
        exact enums e (.inl (.inl (settled.shown l' mem e shown)))
    · exact enums e (.inr shown)

end Collection

end RestGraph
