import RestGraph.Proofs.Graph.Growth

/-!
# Ways up and down

The ancestors of a node, and the node that its first children lead to. Both stay as a graph grows,
the second once the last node on the way has been visited.
-/

namespace RestGraph

namespace Graph

variable {busy : Set Nat} {g h : Graph} {a b c i p : Nat}

/-! ## Up -/

/-- The ancestors of a node are its parent and the ancestors of its parent. -/
theorem ancestors_of_parent (parent : (g.node i).parent = some p) (lt : p < i) :
    g.ancestors i = p :: g.ancestors p := by
  rw [ancestors, parent]
  exact if_pos lt

@[simp] theorem ancestors_of_root (parent : (g.node i).parent = none) : g.ancestors i = [] := by
  rw [ancestors, parent]

/-- The way up ends, or goes on at an older node. -/
theorem ancestors_cases (g : Graph) (i : Nat) :
    g.ancestors i = [] ∨ ∃ p < i, g.ancestors i = p :: g.ancestors p := by
  cases parent : (g.node i).parent with
  | none => exact .inl (ancestors_of_root parent)
  | some p =>
    by_cases lt : p < i
    · exact .inr ⟨p, lt, ancestors_of_parent parent lt⟩
    · left
      rw [ancestors, parent]
      exact if_neg lt

theorem lt_of_mem_ancestors (above : a ∈ g.ancestors i) : a < i := by
  fun_induction ancestors g i with
  | case1 => cases above
  | case2 i p _ lt ih =>
    rcases List.mem_cons.mp above with rfl | above
    · exact lt
    · exact (ih above).trans lt
  | case3 => cases above

/-- The chain of a node is the node with its ancestors. -/
@[simp] theorem mem_chain : a ∈ g.chain i ↔ a = i ∨ a ∈ g.ancestors i := by
  rw [chain, List.mem_reverse, List.mem_cons]

/-- A node with an ancestor is a node of the graph. -/
theorem lt_size_of_mem_ancestors (above : a ∈ g.ancestors i) : i < g.size := by
  rw [ancestors] at above
  split at above
  · cases above
  · next parent => exact lt_size_of_parent parent

/-- From an ancestor upwards the way is the same. -/
theorem ancestors_split (above : a ∈ g.ancestors i) :
    ∃ between, g.ancestors i = between ++ a :: g.ancestors a ∧ ∀ b ∈ between,
    a ∈ g.ancestors b := by
  fun_induction ancestors g i with
  | case1 => cases above
  | case2 i p parent lt ih =>
    rcases List.mem_cons.mp above with rfl | above
    · exact ⟨[], rfl, fun _ none => absurd none List.not_mem_nil⟩
    · obtain ⟨between, split, below⟩ := ih above
      refine ⟨p :: between, by rw [split, List.cons_append], fun b hb => ?_⟩
      rcases List.mem_cons.mp hb with rfl | hb
      · exact above
      · exact below b hb
  | case3 => cases above

theorem mem_ancestors_trans (high : a ∈ g.ancestors b) (low : b ∈ g.ancestors c) :
    a ∈ g.ancestors c := by
  obtain ⟨between, split, -⟩ := ancestors_split low
  rw [split]
  exact List.mem_append_right _ (List.mem_cons_of_mem _ high)

/-- Of two ancestors of a node one stands above the other. -/
theorem ancestors_linear (ha : a ∈ g.ancestors c) (hb : b ∈ g.ancestors c) :
    a = b ∨ a ∈ g.ancestors b ∨ b ∈ g.ancestors a := by
  obtain ⟨between, split, below⟩ := ancestors_split ha
  rw [split] at hb
  rcases List.mem_append.mp hb with hb | hb
  · exact .inr (.inl (below b hb))
  · rcases List.mem_cons.mp hb with rfl | hb
    · exact .inl rfl
    · exact .inr (.inr hb)

theorem Extends.ancestors (step : g.Extends h) (lt : i < g.size) :
    h.ancestors i = g.ancestors i := by
  induction i using Nat.strongRecOn with
  | ind i ih =>
    have parent := (step.keeps lt).parent
    rw [Graph.ancestors, parent]
    conv_rhs => rw [Graph.ancestors]
    split
    · rfl
    · next p _ =>
      split
      · next hp => rw [ih p hp (hp.trans lt)]
      · rfl

/-- Growth leaves whether a node is inside arguments. -/
theorem Extends.inArguments (step : g.Extends h) (lt : i < g.size) :
    h.inArguments i = g.inArguments i := by
  rw [Graph.inArguments, Graph.inArguments, step.ancestors lt]
  rw [Bool.eq_iff_iff, List.any_eq_true, List.any_eq_true]
  refine exists_congr fun a => and_congr_right fun above => ?_
  rw [(step.keeps ((lt_of_mem_ancestors above).trans lt)).kind.tag]

/-- The ids that were there are there after growth. -/
theorem Grows.idAt (step : g.Grows busy h) (lt : i < g.size) : h.idAt i = g.idAt i := by
  rw [Graph.idAt, Graph.idAt, Node.id, Node.id, step.kind lt, (step.keeps lt).discriminant]

/-- The paths that were there are there after growth. -/
theorem Grows.pathOf (step : g.Grows busy h) (lt : i < g.size) : h.pathOf i = g.pathOf i := by
  rw [Graph.pathOf, Graph.pathOf, chain, chain, step.ancestors lt]
  congr 1
  refine List.map_congr_left fun a ha => ?_
  have old : a < g.size := by
    rcases mem_chain.mp ha with rfl | above
    · exact lt
    · exact (lt_of_mem_ancestors above).trans lt
  rw [step.idAt old]

/-! ## Down -/

/-- The node first below another is its first child. -/
theorem firstBelow?_eq_some {c : { c : Nat // i < c ∧ c < g.size }}
    (first : g.firstBelow? i = some c) : ∃ rest, (g.node i).children = c.1 :: rest := by
  unfold firstBelow? at first
  split at first
  · next x rest children =>
    split at first
    · cases first
      exact ⟨rest, children⟩
    · cases first
  · cases first

/-- The first child is first below, when it is younger. -/
theorem firstBelow?_of_cons {rest : List Nat} (children : (g.node i).children = c :: rest)
    (lt : i < c ∧ c < g.size) : g.firstBelow? i = some ⟨c, lt⟩ := by
  unfold firstBelow?
  split
  · next x rest children' =>
    rw [children] at children'
    cases children'
    exact dif_pos lt
  · next children' =>
    rw [children] at children'
    cases children'

/-- The target of a node of the graph is a node of the graph. -/
theorem targetOf_lt (lt : i < g.size) : g.targetOf i < g.size := by
  fun_induction targetOf g i with
  | case1 i _ c bounds _ ih => exact ih bounds.2
  | case2 | case3 => exact lt

/-- An element is no older than what it is the element of. -/
theorem le_elementOf (g : Graph) (i : Nat) : i ≤ g.elementOf i := by
  fun_induction elementOf g i with
  | case1 i _ _ c bounds _ ih => exact (Nat.le_of_lt bounds.1).trans ih
  | case2 | case3 => exact Nat.le_refl _

/-- A wrapper has the target of its first child. -/
theorem targetOf_of_first {rest : List Nat} (wrapper : (g.node i).kind.isWrapper = true)
    (children : (g.node i).children = c :: rest) (lt : i < c ∧ c < g.size) :
    g.targetOf i = g.targetOf c := by
  rw [targetOf]
  simp only [wrapper, if_true, firstBelow?_of_cons children lt]

@[simp]
theorem targetOf_of_end (wrapper : (g.node i).kind.isWrapper = false) : g.targetOf i = i := by
  rw [targetOf]
  simp [wrapper]

@[simp] theorem targetOf_of_childless (children : (g.node i).children = []) : g.targetOf i = i := by
  rw [targetOf]
  have first : g.firstBelow? i = none := by
    rw [firstBelow?, children]
  simp only [first]
  split <;> rfl

/-- A wrapper or an array has the element of its first child. -/
theorem elementOf_of_first {rest : List Nat}
    (leads : (g.node i).kind.isWrapper = true ∨ (g.node i).kind.isArray = true)
    (children : (g.node i).children = c :: rest) (lt : i < c ∧ c < g.size) :
    g.elementOf i = g.elementOf c := by
  rw [elementOf]
  simp only [Bool.or_eq_true, leads, if_true, firstBelow?_of_cons children lt]

/-- What is neither wrapper nor array is its own element. -/
@[simp] theorem elementOf_of_end (wrapper : (g.node i).kind.isWrapper = false)
    (array : (g.node i).kind.isArray = false) : g.elementOf i = i := by
  rw [elementOf]
  simp [wrapper, array]

/-- What has no children is its own element. -/
@[simp]
theorem elementOf_of_childless (children : (g.node i).children = []) : g.elementOf i = i := by
  rw [elementOf]
  have first : g.firstBelow? i = none := by
    rw [firstBelow?, children]
  simp only [first]
  split <;> rfl

@[simp]
theorem elementOf_elementOf (g : Graph) (i : Nat) :
    g.elementOf (g.elementOf i) = g.elementOf i := by
  fun_induction elementOf g i with
  | case1 _ _ _ _ _ _ ih => exact ih
  | case2 i kind leads first =>
    rw [elementOf]
    simp only [first]
    split <;> rfl
  | case3 i kind leads =>
    rw [elementOf]
    exact if_neg leads

/-- The element of a node of the graph is a node of the graph. -/
theorem elementOf_lt (lt : i < g.size) : g.elementOf i < g.size := by
  fun_induction elementOf g i with
  | case1 _ _ _ _ bounds _ ih => exact ih bounds.2
  | case2 | case3 => exact lt

@[simp] theorem elementOf_of_isStructured (structured : (g.node i).kind.isStructured = true) :
    g.elementOf i = i := by
  refine elementOf_of_end ?_ ?_ <;>
    cases kind : (g.node i).kind <;> rw [kind] at structured <;> first | rfl | cases structured

/-- A circular reference is its own element. -/
@[simp] theorem elementOf_of_isCircular (circular : (g.node i).kind.tag = .circular) :
    g.elementOf i = i := by
  refine elementOf_of_end ?_ ?_ <;>
    cases kind : (g.node i).kind <;> rw [kind] at circular <;> first | rfl | cases circular

@[simp]
theorem elementOf_targetOf (g : Graph) (i : Nat) : g.elementOf (g.targetOf i) = g.elementOf i := by
  fun_induction targetOf g i with
  | case1 i wrapper c bounds found ih =>
    obtain ⟨rest, children⟩ := firstBelow?_eq_some found
    rw [ih, elementOf_of_first (.inl wrapper) children bounds]
  | case2 | case3 => rfl

/-- While no wrapper and no array at the end of the way down is worked on, the way leads nowhere
else. -/
theorem Grows.elementOf (step : g.Grows busy h) (lt : i < g.size)
    (ordered : ∀ {a c}, c ∈ (g.node a).children → a < c ∧ c < g.size)
    (free : (g.node (g.elementOf i)).kind.isWrapper = true ∨
      (g.node (g.elementOf i)).kind.isArray = true → g.elementOf i ∉ busy) :
    h.elementOf i = g.elementOf i := by
  have stays : ∀ {a}, a < g.size → (h.node a).kind.isWrapper = (g.node a).kind.isWrapper ∧
      (h.node a).kind.isArray = (g.node a).kind.isArray := fun lt =>
    ⟨(step.keeps lt).kind.isWrapper, (step.keeps lt).kind.isArray⟩
  fun_induction Graph.elementOf g i with
  | case1 i kind leads c bounds first ih =>
    obtain ⟨rest, children⟩ := firstBelow?_eq_some first
    obtain ⟨more, grown⟩ := (step.keeps lt).children
    have below : (h.node i).children = c :: (rest ++ more) := by
      rw [← grown, children, List.cons_append]
    have bounds' : i < c ∧ c < h.size := ⟨bounds.1, bounds.2.trans_le step.size_le⟩
    rw [elementOf_of_first _ below bounds']
    · exact ih bounds.2 free
    · rw [(stays lt).1, (stays lt).2, ← Bool.or_eq_true]
      exact leads
  | case2 i kind leads first =>
    have none : (g.node i).children = [] := by
      cases children : (g.node i).children with
      | nil => rfl
      | cons c rest =>
        have bounds := ordered (children ▸ List.mem_cons_self : c ∈ (g.node i).children)
        rw [firstBelow?_of_cons children bounds] at first
        cases first
    rw [elementOf_of_childless]
    rw [step.children lt (free ((Bool.or_eq_true _ _).mp leads)), none]
  | case3 i kind leads =>
    rw [Bool.or_eq_true, not_or, Bool.not_eq_true, Bool.not_eq_true] at leads
    rw [elementOf_of_end]
    · rw [(stays lt).1]
      exact leads.1
    · rw [(stays lt).2]
      exact leads.2

/-- The second node is found from the first through first children of wrappers. -/
inductive Leads (g : Graph) : Nat → Nat → Prop
  | here (i : Nat) : Leads g i i
  | down {i c t : Nat} {rest : List Nat} (wrapper : (g.node i).kind.isWrapper = true)
      (children : (g.node i).children = c :: rest) (more : Leads g c t) : Leads g i t

namespace Leads

variable {t : Nat}

theorem trans (first : g.Leads i c) (second : g.Leads c t) : g.Leads i t := by
  induction first with
  | here => exact second
  | down wrapper children _ ih => exact .down wrapper children (ih second)

theorem extend (leads : g.Leads i t) (step : g.Extends h) : h.Leads i t := by
  induction leads with
  | here i => exact .here i
  | @down i c t rest wrapper children _ ih =>
    have lt : i < g.size := lt_size_of_child (children ▸ List.mem_cons_self : c ∈ _)
    obtain ⟨more, grown⟩ := (step.keeps lt).children
    have below : (h.node i).children = c :: (rest ++ more) := by
      rw [← grown, children, List.cons_append]
    exact .down ((step.keeps lt).kind.isWrapper.trans wrapper) below ih

/-- A node has the element of any node it leads to. -/
theorem elementOf (leads : g.Leads i t)
    (ordered : ∀ {a c}, c ∈ (g.node a).children → a < c ∧ c < g.size) :
    g.elementOf i = g.elementOf t := by
  induction leads with
  | here => rfl
  | down wrapper children _ ih =>
    rw [elementOf_of_first (.inl wrapper) children (ordered (children ▸ List.mem_cons_self)), ih]

end Leads

end Graph

end RestGraph
