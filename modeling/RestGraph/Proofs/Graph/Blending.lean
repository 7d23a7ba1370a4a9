import RestGraph.Proofs.Graph.Merging

/-!
# Merging in full

Where nothing is filtered out, the fields of a merged composition are told by its branches: they are
those of the objects, level by level, and a name goes to the first that has it. A branch that is a
composition itself adds nothing of its own, as long as it was not merged before.
-/

namespace RestGraph

variable {d : Document} {r s t : Run} {a b c i : Nat}

namespace Graph

variable {busy : Set Nat} {g h : Graph} {props all : List (String × Nat)} {level : List Nat}

/-- The fields that a branch has of its own. -/
def ownFields (g : Graph) (b : Nat) : List (String × Nat) :=
  if (g.node b).kind.tag = .object then (g.node b).props else []

section Offers

variable {β : Type} {offers : Nat → List (String × β)} {props : List (String × β)} {all : List Nat}

/-- The fields of some branches together, one branch after the other. -/
def addOffers (offers : Nat → List (String × β)) (props : List (String × β)) (branches : List Nat) :
    List (String × β) :=
  branches.foldl (fun props b => addFields props (offers b)) props

/-- Offers are added one list of branches after the other. -/
@[simp]
theorem addOffers_append (branches more : List Nat) : addOffers offers props (branches ++ more) =
    addOffers offers (addOffers offers props branches) more := List.foldl_append

theorem addOffers_congr {offers' : Nat → List (String × β)}
    (same : ∀ b ∈ all, offers b = offers' b) :
    addOffers offers props all = addOffers offers' props all :=
  List.foldl_ext _ _ _ fun _ b mem => by rw [same b mem]

/-- The names are those that were there and those that some branch offers. -/
theorem mem_keys_addOffers {name : String} : name ∈ (addOffers offers props all).map Prod.fst ↔
    name ∈ props.map Prod.fst ∨ ∃ b ∈ all, name ∈ (offers b).map Prod.fst := by
  induction all generalizing props with
  | nil => simp [addOffers]
  | cons b rest ih =>
    refine Iff.trans ih ?_
    rw [mem_keys_addFields, or_assoc, List.exists_mem_cons_iff]

theorem nodup_keys_addOffers (keys : (props.map Prod.fst).Nodup) :
    ((addOffers offers props all).map Prod.fst).Nodup := by
  induction all generalizing props with
  | nil => exact keys
  | cons b rest ih => exact ih (nodup_keys_addFields keys)

/-- A name goes to the first branch that offers it. -/
theorem mem_addOffers {x : String × β} (mem : x ∈ addOffers offers props all) :
    x ∈ props ∨ ∃ before b after, all = before ++ b :: after ∧ x ∈ offers b ∧
      x.1 ∉ props.map Prod.fst ∧ ∀ a ∈ before, x.1 ∉ (offers a).map Prod.fst := by
  induction all generalizing props with
  | nil => exact .inl mem
  | cons b rest ih =>
    rcases ih mem with mem | ⟨before, o, after, rfl, offered, other, first⟩
    · refine (mem_addFields mem).imp_right fun ⟨offered, other⟩ => ?_
      exact ⟨[], b, rest, rfl, offered, other, fun a none => absurd none List.not_mem_nil⟩
    · rw [mem_keys_addFields, not_or] at other
      exact .inr ⟨b :: before, o, after, rfl, offered, other.1,
        List.forall_mem_cons.mpr ⟨other.2, first⟩⟩

end Offers

/-- The fields that a level of branches adds to those of the levels above. -/
def addLevel (g : Graph) (props : List (String × Nat)) (level : List Nat) : List (String × Nat) :=
  level.foldl (fun props b => addFields props (g.ownFields b)) props

/-- The fields are those of all levels of branches from the given one on. -/
inductive Blends (g : Graph) : List (String × Nat) → List Nat → List (String × Nat) → Prop
  | done {props : List (String × Nat)} : Blends g props [] props
  | level {props all : List (String × Nat)} {b : Nat} {rest : List Nat}
      (visited : ∀ x ∈ b :: rest, x < g.size ∧ (g.node x).visited = true)
      (more : Blends g (g.addLevel props (b :: rest)) ((b :: rest).flatMap g.branchesOn) all) :
      Blends g props (b :: rest) all

/-- The levels of branches from the given one on, one after the other. -/
inductive Walks (g : Graph) : List Nat → List Nat → Prop
  | done : Walks g [] []
  | level {b : Nat} {rest later : List Nat}
      (more : Walks g ((b :: rest).flatMap g.branchesOn) later) :
      Walks g (b :: rest) (b :: rest ++ later)

/-- What is walked over below branches are branches. -/
theorem Walks.branch {handles : List Nat} (walks : g.Walks level handles)
    (branches : ∀ b ∈ level, g.Branch c b) : ∀ b ∈ handles, g.Branch c b := by
  induction walks with
  | done => exact branches
  | level _ ih =>
    intro b mem
    refine (List.mem_append.mp mem).elim (branches b) (ih (fun x mem => ?_) b)
    obtain ⟨y, mem, below⟩ := List.mem_flatMap.mp mem
    exact (branches y mem).tail (edge_of_mem_branchesOn below)

/-- A walk over visited branches blends what they offer. -/
theorem Walks.blends {handles : List Nat} (walks : g.Walks level handles)
    (visited : ∀ b ∈ handles, b < g.size ∧ (g.node b).visited = true) :
    g.Blends props level (g.addLevel props handles) := by
  induction walks generalizing props with
  | done => exact .done
  | @level b rest later _ ih =>
    rw [show g.addLevel props (b :: rest ++ later) = g.addLevel (g.addLevel props (b :: rest)) later
      from addOffers_append _ _]
    exact .level (fun x mem => visited x (List.mem_append_left _ mem))
      (ih fun x mem => visited x (List.mem_append_right _ mem))

/-- The composition has the fields of all its branches. -/
def IsBlend (g : Graph) (c : Nat) : Prop :=
  (g.node c).visited = true ∧ ∃ all, g.Blends [] (Build.branchesBelow g c) all ∧
    (g.node c).props = Text.sortByName Prod.fst all

/-- The node is merged into some composition. -/
def IsBranch (g : Graph) (b : Nat) : Prop :=
  ∃ o, (g.node o).kind.isComposition = true ∧ g.Branch o b

/-! ## Growth -/

/-- A blend hangs on the fields and the branches of visited nodes. -/
theorem Blends.imp (blends : g.Blends props level all)
    (same : ∀ b < g.size, (g.node b).visited = true → (b < h.size ∧ (h.node b).visited = true) ∧
      h.ownFields b = g.ownFields b ∧ h.branchesOn b = g.branchesOn b) :
    h.Blends props level all := by
  induction blends with
  | done => exact .done
  | @level props _ b rest visited _ ih =>
    have each : ∀ x ∈ b :: rest, _ := fun x mem => same x (visited x mem).1 (visited x mem).2
    refine .level (fun x mem => (each x mem).1) ?_
    have fields : h.addLevel props (b :: rest) = g.addLevel props (b :: rest) :=
      List.foldl_ext _ _ _ fun props x mem => by rw [(each x mem).2.1]
    rw [fields, show (b :: rest).flatMap h.branchesOn = (b :: rest).flatMap g.branchesOn from
      congrArg List.flatten (List.map_congr_left fun x mem => (each x mem).2.2)]
    exact ih

/-- The branches below a node hang on its children and their kinds. -/
theorem branchesBelow_congr (children : (h.node b).children = (g.node b).children)
    (kind : ∀ c ∈ (g.node b).children, (h.node c).kind = (g.node c).kind) :
    Build.branchesBelow h b = Build.branchesBelow g b := by
  rw [Build.branchesBelow, Build.branchesBelow, children]
  refine List.filter_congr fun c child => ?_
  rw [Node.isProperty, kind c child]
  rfl

section Grow

variable (step : g.Grows g.unvisited h) (sound : g.Sound) (inside : b < g.size)
  (visited : (g.node b).visited = true)

include step inside visited

/-- A visited node keeps the branches below it. -/
theorem Grows.branchesBelow (sound : g.Sound) :
    Build.branchesBelow h b = Build.branchesBelow g b :=
  branchesBelow_congr (step.children inside (notMem_unvisited.mpr visited))
    fun _ child => step.kind (sound.below child).2

theorem Grows.branchesOn (sound : g.Sound) : h.branchesOn b = g.branchesOn b := by
  rw [Graph.branchesOn, Graph.branchesOn, step.kind inside, step.branchesBelow inside visited sound]

theorem Grows.ownFields : h.ownFields b = g.ownFields b := by
  rw [Graph.ownFields, Graph.ownFields, step.kind inside]
  split
  · next object =>
    exact step.props inside (notMem_unvisited.mpr visited) (Node.isMerged_of_object object)
  · rfl

end Grow

theorem Blends.grow (blends : g.Blends props level all) (step : g.Grows g.unvisited h)
    (sound : g.Sound) : h.Blends props level all :=
  blends.imp fun _ inside visited =>
    ⟨⟨inside.trans_le step.size_le, (step.keeps inside).visited visited⟩,
      step.ownFields inside visited, step.branchesOn inside visited sound⟩

/-- What a composition gets is no matter for its branches. -/
@[simp] theorem branchesBelow_withProps {own : List (String × Nat)} (b : Nat) :
    Build.branchesBelow (g.modify i (Node.withProps own)) b = Build.branchesBelow g b :=
  branchesBelow_congr (part_modify Node.children (fun _ => by rfl) b)
    fun c _ => part_modify Node.kind (fun _ => by rfl) c

theorem Walks.withProps {own : List (String × Nat)} {handles : List Nat}
    (walks : g.Walks level handles) : (g.modify i (Node.withProps own)).Walks level handles := by
  have same : (g.modify i (Node.withProps own)).branchesOn = g.branchesOn := funext fun b => by
    rw [branchesOn, branchesOn, branchesBelow_withProps,
      part_modify Node.kind (fun _ => by rfl) b]
  induction walks with
  | done => exact .done
  | level _ ih => exact .level (same.symm ▸ ih)

theorem IsBlend.grow (blend : g.IsBlend c) (step : g.Grows g.unvisited h) (sound : g.Sound)
    (inside : c < g.size) (merged : (g.node c).isMerged = true) : h.IsBlend c := by
  obtain ⟨visited, all, blends, props⟩ := blend
  refine ⟨(step.keeps inside).visited visited, all, ?_, ?_⟩
  · rw [step.branchesBelow inside visited sound]
    exact blends.grow step sound
  · rw [step.props inside (notMem_unvisited.mpr visited) merged, props]

/-! ## Branches -/

/-- What is merged into a node that was there before was below it already. -/
theorem Branch.back (branch : h.Branch a b) (step : g.Extends h) (forest : g.Forest)
    (forest' : h.Forest) (old : b < g.size) : g.Branch a b := by
  have edge : ∀ {x y}, h.Edge x y → y < g.size → x < g.size ∧ g.Edge x y := fun {x y} edge old => by
    have parent : (g.node y).parent = some x := (step.keeps old).parent ▸ forest'.parent edge.2
    have above := (forest.parent_lt parent).trans old
    exact ⟨above, (step.keeps above).kind.expands ▸ edge.1, forest.child parent⟩
  induction branch with
  | single last => exact .single (edge last old).2
  | tail _ last ih => exact (ih (edge last old).1).tail (edge last old).2

/-- What is a branch after growth was one before, if it was there. -/
theorem IsBranch.back (branch : h.IsBranch b) (step : g.Extends h) (forest : g.Forest)
    (forest' : h.Forest) (old : b < g.size) : g.IsBranch b := by
  obtain ⟨o, composition, branch⟩ := branch
  have branch := branch.back step forest forest' old
  refine ⟨o, ?_, branch⟩
  have inside : o < g.size := by
    rcases Relation.TransGen.head'_iff.mp branch with ⟨_, edge, -⟩
    exact lt_size_of_child edge.2
  rw [← (step.keeps inside).isComposition]
  exact composition

theorem IsBranch.extend (branch : g.IsBranch b) (step : g.Extends h) : h.IsBranch b := by
  obtain ⟨o, composition, branch⟩ := branch
  refine ⟨o, ?_, branch.extend step⟩
  rw [(step.keeps (lt_size_of_ne fun e => ?_)).isComposition]
  · exact composition
  · rw [e] at composition
    cases composition

/-- Only what stands below a composition, or below a reference that does, is merged into one. -/
theorem not_isBranch_of_child (forest : g.Forest) (child : c ∈ (g.node i).children)
    (plain : (g.node i).kind.isComposition = false)
    (reference : (g.node i).kind.expands = true → ¬g.IsBranch i) : ¬g.IsBranch c := by
  have only : ∀ {x}, g.Edge x c → x = i := fun edge =>
    Option.some.inj ((forest.parent edge.2).symm.trans (forest.parent child))
  rintro ⟨o, composition, branch⟩
  cases branch with
  | single edge =>
    rw [only edge, plain] at composition
    cases composition
  | tail above edge =>
    obtain rfl := only edge
    exact reference edge.1 ⟨o, composition, above⟩

end Graph

/-- No composition that is merged into the node was merged itself. -/
def Run.Unmixed (r : Run) (c : Nat) : Prop :=
  ∀ b, r.graph.Branch c b → (r.graph.node b).kind.isComposition = true →
    (r.graph.node b).consolidated = false

theorem Run.Unmixed.visits (unmixed : r.Unmixed c) (visits : r.Visits d s) (sound : r.graph.Sound) :
    s.Unmixed c := by
  intro b branch composition
  refine Bool.eq_false_iff.mpr fun consolidated => ?_
  have sound' := visits.sound sound
  obtain ⟨old, before⟩ := visits.unmerged (branch.lt_size sound') consolidated
  rw [visits.grows.kind old] at composition
  rw [unmixed b (branch.back visits.grows.toExtends sound sound' old) composition] at before
  cases before

/-- The fields of a branch that merging may take. -/
def Run.offered (r : Run) (filtering : Bool) (b : Nat) : List (String × Nat) :=
  (r.graph.node b).props.filter fun x => Build.isAllowed r filtering x.2

/-- What was visited keeps its fields. -/
theorem Run.Visits.props (visits : r.Visits d s) (sound : r.graph.Sound) (inside : b < r.graph.size)
    (visited : (r.graph.node b).visited = true) :
    (s.graph.node b).props = (r.graph.node b).props := by
  cases merged : (r.graph.node b).isMerged with
  | true => exact visits.grows.props inside (Graph.notMem_unvisited.mpr visited) merged
  | false =>
    rw [sound.unmerged merged]
    refine (visits.sound sound).unmerged (Bool.eq_false_iff.mpr fun merged' => ?_)
    rw [Node.isMerged, Bool.or_eq_false_iff] at merged
    rw [Node.isMerged, visits.grows.kind inside, merged.1, Bool.false_or] at merged'
    have before := (visits.unmerged (inside.trans_le visits.grows.size_le) merged').2
    rw [merged.2] at before
    cases before

theorem Run.Visits.offered (visits : r.Visits d s) (sound : r.graph.Sound) {filtering : Bool}
    (inside : b < r.graph.size) (visited : (r.graph.node b).visited = true) :
    s.offered filtering b = r.offered filtering b := by
  rw [Run.offered, Run.offered, visits.props sound inside visited]
  refine List.filter_congr fun x field => ?_
  exact Build.isAllowed_after visits.grows visits.filter
    (Graph.lt_size_of_mem_ancestors (sound.fields field).above)

/-- What a composition gets changes nothing of what another node offers. -/
theorem Run.offered_withProps {filtering : Bool} {own : List (String × Nat)} (sound : r.graph.Sound)
    (graph : s.graph = r.graph.modify i (Node.withProps own)) (filter : s.filter = r.filter)
    (ne : b ≠ i) : s.offered filtering b = r.offered filtering b := by
  have fill : r.graph.Grows {i} s.graph :=
    graph ▸ .modify { Node.Keeps.refl (r.graph.node i) with } rfl
  rw [Run.offered, Run.offered, graph, Graph.node_modify_of_ne ne]
  refine List.filter_congr fun x field => Build.isAllowed_after fill filter ?_
  exact Graph.lt_size_of_mem_ancestors (sound.fields field).above

/-- Where nothing is filtered out and no composition was merged before, branches have fields of
their own only. -/
theorem Run.Unmixed.offered (unmixed : r.Unmixed c) (sound : r.graph.Sound)
    (branch : r.graph.Branch c b) : r.offered false b = r.graph.ownFields b := by
  have all : r.offered false b = (r.graph.node b).props := List.filter_true _
  rw [all, Graph.ownFields]
  split
  · rfl
  · next other =>
    cases composition : (r.graph.node b).kind.isComposition with
    | true =>
      refine sound.unmerged ?_
      rw [Node.isMerged, composition, unmixed b branch composition]
      rfl
    | false =>
      refine List.eq_nil_iff_forall_not_mem.mpr fun x field => ?_
      exact other (sound.own composition field).1

/-- The node has the fields that its branches offer; where several branches offer a name, it goes to
the first of them. -/
structure Run.MergedAt (s : Run) (c : Nat) (found : List Nat) : Prop where
  visited : (s.graph.node c).visited = true
  walks : s.graph.Walks (Build.branchesBelow s.graph c) found
  branch : ∀ b, b ∈ found ↔ s.graph.Branch c b
  nodup : found.Nodup
  done : ∀ b ∈ found, b < s.graph.size ∧ (s.graph.node b).visited = true
  props : (s.graph.node c).props =
    Text.sortByName Prod.fst (Graph.addOffers (s.offered s.isFiltering) [] found)
  again : ∀ d, Ends (Build.consolidate d c) s found s

namespace Build

variable {m m' : Merged} {level below : List Nat} {filtering : Bool}

theorem mergeBranch_adds (h : Ends (mergeBranch d filtering m i) s (m', below) t)
    (sound : s.graph.Sound) (new : i ∉ m.consumed) :
    s.Visits d t ∧ (t.graph.node i).visited = true ∧ m'.consumed = m.consumed ++ [i] ∧
      m'.props = Graph.addFields m.props (t.offered filtering i) ∧
      below = t.graph.branchesOn i := by
  obtain ⟨taken, -⟩ | ⟨-, v, visit, released, rfl, rfl⟩ := mergeBranch_cases h
  · exact absurd taken new
  · obtain ⟨graph, stack, filter, extent⟩ := Run.same_of_released released
    obtain ⟨visits, visited⟩ := visit_steps visit sound
    exact ⟨visits.trans (.of_same graph stack filter extent), graph ▸ visited, rfl,
      addProps_props t filtering _ _, rfl⟩

/-- A level adds the fields of its branches in their order. -/
theorem mergeLevel_adds (h : Ends (mergeLevel d filtering m level) s (m', below) t)
    (sound : s.graph.Sound) (inside : ∀ b ∈ level, b < s.graph.size)
    (nodup : (m.consumed ++ level).Nodup) : s.Visits d t ∧
      (∀ b ∈ level, (t.graph.node b).visited = true) ∧ m'.consumed = m.consumed ++ level ∧
      m'.props = Graph.addOffers (t.offered filtering) m.props level ∧
      below = level.flatMap t.graph.branchesOn := by
  induction level generalizing m s below with
  | nil =>
    obtain ⟨rfl, rfl, rfl⟩ := mergeLevel_nil h
    exact ⟨.refl d s, fun b none => absurd none List.not_mem_nil,
      (List.append_nil _).symm, rfl, rfl⟩
  | cons i rest ih =>
    obtain ⟨m₁, u, below₁, below₂, first, second, rfl⟩ := mergeLevel_cons h
    obtain ⟨visits, visited, consumed, props, rfl⟩ := mergeBranch_adds first sound
      fun taken => (List.nodup_append.mp nodup).2.2 i taken i List.mem_cons_self rfl
    have sound' := visits.sound sound
    obtain ⟨visits', done, consumed', props', rfl⟩ := ih second sound'
      (fun b mem => (inside b (List.mem_cons_of_mem i mem)).trans_le visits.grows.size_le)
      (by rw [consumed, List.append_assoc]; exact nodup)
    have inside := (inside i List.mem_cons_self).trans_le visits.grows.size_le
    have grows := visits'.grows
    refine ⟨visits.trans visits', fun b mem => ?_, ?_, ?_, ?_⟩
    · rcases List.mem_cons.mp mem with rfl | mem
      · exact (grows.keeps inside).visited visited
      · exact done b mem
    · rw [consumed', consumed, List.append_assoc]
      rfl
    · rw [props', props, ← visits'.offered sound' inside visited]
      rfl
    · rw [← grows.branchesOn inside visited sound']
      rfl

/-- A level of branches, and what was taken in above it. -/
structure Levelled (g : Graph) (m : Merged) (level : List Nat) (height : Nat) : Prop where
  above : ∀ b ∈ m.consumed, b < g.size ∧ (g.ancestors b).length < height
  here : ∀ b ∈ level, (g.ancestors b).length = height
  nodup : (m.consumed ++ level).Nodup

/-- The branches below those of a level make up the next one. -/
theorem Levelled.next {g h : Graph} {height : Nat} (levelled : Levelled g m level height)
    (step : g.Extends h) (forest : h.Forest) (inside : ∀ b ∈ level, b < g.size)
    (consumed : m'.consumed = m.consumed ++ level) :
    Levelled h m' (level.flatMap h.branchesOn) (height + 1) := by
  have level_nodup := (List.nodup_append.mp levelled.nodup).2.1
  have child : ∀ {b x}, x ∈ h.branchesOn b → x ∈ (h.node b).children := fun mem =>
    (Graph.edge_of_mem_branchesOn mem).2
  have lower : ∀ x ∈ level.flatMap h.branchesOn, (h.ancestors x).length = height + 1 :=
    fun x mem => by
    obtain ⟨b, mem, below⟩ := List.mem_flatMap.mp mem
    rw [forest.ancestors_of_child (child below), List.length_cons, step.ancestors (inside b mem),
      levelled.here b mem]
  have upper : ∀ b ∈ m'.consumed, b < h.size ∧ (h.ancestors b).length < height + 1 :=
    fun b mem => by
    rw [consumed] at mem
    rcases List.mem_append.mp mem with mem | mem
    · obtain ⟨old, less⟩ := levelled.above b mem
      exact ⟨old.trans_le step.size_le, by rw [step.ancestors old]; exact Nat.lt_succ_of_lt less⟩
    · have old := inside b mem
      exact ⟨old.trans_le step.size_le,
        by rw [step.ancestors old, levelled.here b mem]; exact Nat.lt_succ_self _⟩
  refine ⟨upper, lower, List.nodup_append.mpr ⟨consumed ▸ levelled.nodup, ?_, ?_⟩⟩
  · refine List.nodup_flatMap.mpr ⟨fun b _ => ?_, level_nodup.imp fun {a b} ne x ha hb => ne ?_⟩
    · unfold Graph.branchesOn
      split
      · exact ((forest.sorted b).imp Nat.ne_of_lt).filter _
      · exact List.nodup_nil
    · exact Option.some.inj ((forest.parent (child ha)).symm.trans (forest.parent (child hb)))
  · intro a ha b hb same
    have low := lower b hb
    rw [← same] at low
    exact absurd low (Nat.ne_of_lt (upper a ha).2)

/-- Level by level, all branches are visited and add their fields in their order. -/
theorem mergeLevels_adds {depth height : Nat}
    (h : Ends (mergeLevels d filtering depth m level) s m' t)
    (sound : s.graph.Sound) (inside : ∀ b ∈ level, b < s.graph.size)
    (levelled : Levelled s.graph m level height) : s.Visits d t ∧ ∃ all,
      t.graph.Walks level all ∧ (∀ b ∈ all, b < t.graph.size ∧ (t.graph.node b).visited = true) ∧
      m'.consumed = m.consumed ++ all ∧ m'.consumed.Nodup ∧
      m'.props = Graph.addOffers (t.offered filtering) m.props all := by
  have done : ∀ {m : Merged} {s : Run}, (m.consumed ++ []).Nodup → s.Visits d s ∧ ∃ all,
      s.graph.Walks [] all ∧ (∀ b ∈ all, b < s.graph.size ∧ (s.graph.node b).visited = true) ∧
      m.consumed = m.consumed ++ all ∧ m.consumed.Nodup ∧
      m.props = Graph.addOffers (s.offered filtering) m.props all :=
    fun {m s} nodup => ⟨.refl d s, [], .done, fun b none => absurd none List.not_mem_nil,
      (List.append_nil _).symm, List.append_nil m.consumed ▸ nodup, rfl⟩
  induction depth generalizing m s level height with
  | zero =>
    obtain ⟨rfl, rfl, rfl⟩ | ⟨_, _, _, _, none, -⟩ := mergeLevels_cases h
    · exact done levelled.nodup
    · cases none
  | succ depth ih =>
    obtain ⟨rfl, rfl, rfl⟩ | ⟨_, m₁, next, u, same, some, first, h⟩ := mergeLevels_cases h
    · exact done levelled.nodup
    cases same
    obtain ⟨visits, visited, consumed, props, rfl⟩ :=
      mergeLevel_adds first sound inside levelled.nodup
    have sound' := visits.sound sound
    have step := visits.grows.toExtends
    have lower : ∀ x ∈ level.flatMap u.graph.branchesOn, x < u.graph.size := fun x mem => by
      obtain ⟨y, -, below⟩ := List.mem_flatMap.mp mem
      exact (sound'.below (Graph.edge_of_mem_branchesOn below).2).2
    obtain ⟨visits', later, walks, all, taken, nodup, fields⟩ :=
      ih h sound' lower (levelled.next step sound' inside consumed)
    have old : ∀ x ∈ level, x < u.graph.size := fun x mem => (inside x mem).trans_le step.size_le
    refine ⟨visits.trans visits', level ++ later, ?_, fun x mem => ?_, ?_, nodup, ?_⟩
    · obtain ⟨b, rest, rfl⟩ := List.exists_cons_of_ne_nil some
      refine .level ?_
      rwa [show (b :: rest).flatMap t.graph.branchesOn = (b :: rest).flatMap u.graph.branchesOn
        from congrArg List.flatten (List.map_congr_left fun x mem =>
          visits'.grows.branchesOn (old x mem) (visited x mem) sound')]
    · rcases List.mem_append.mp mem with mem | mem
      · exact ⟨(old x mem).trans_le visits'.grows.size_le,
          (visits'.grows.keeps (old x mem)).visited (visited x mem)⟩
      · exact all x mem
    · rw [taken, consumed, List.append_assoc]
    · have same : Graph.addOffers (t.offered filtering) m.props level = m₁.props :=
        (Graph.addOffers_congr fun x mem =>
          visits'.offered sound' (old x mem) (visited x mem)).trans props.symm
      rw [fields, Graph.addOffers_append, same]

/-- Merging of a composition starts with the branches right below it. -/
theorem Levelled.start {g : Graph} (sound : g.Sound) (i : Nat) :
    Levelled g ⟨[], []⟩ (branchesBelow g i) ((g.ancestors i).length + 1) where
  above _ none := absurd none List.not_mem_nil
  here b mem := by rw [sound.ancestors_of_child (List.mem_filter.mp mem).1, List.length_cons]
  nodup := ((sound.sorted i).imp Nat.ne_of_lt).filter _

/-- Nothing but the node is marked as merged. -/
theorem consolidated_of_consolidate {branches : List Nat} (h : Ends (consolidate d i) r branches t)
    (sound : r.graph.Sound) (composition : (r.graph.node i).kind.isComposition = true)
    (inside : b < t.graph.size) (consolidated : (t.graph.node b).consolidated = true) (ne : b ≠ i) :
    b < r.graph.size ∧ (r.graph.node b).consolidated = true := by
  obtain ⟨-, rfl⟩ | ⟨fresh, s, m, u, visit, merges, -, rfl⟩ := consolidate_cases h
  · exact ⟨inside, consolidated⟩
  · exact (Merging.of_ends visit merges sound composition fresh).merged_before ne
      (Graph.size_modify (g := u.graph) ▸ inside)
      ((Graph.part_modify Node.consolidated (fun _ => by rfl) b).symm.trans consolidated)

/-- Consolidating a composition mixes nothing. -/
theorem unmixed_consolidate {branches : List Nat} (h : Ends (consolidate d i) r branches t)
    (sound : r.graph.Sound) (composition : (r.graph.node i).kind.isComposition = true)
    (unmixed : r.Unmixed i) : t.Unmixed i := by
  have drafts := (consolidate_drafts h sound composition).1
  have sound' := drafts.sound sound
  intro b branch composed
  refine Bool.eq_false_iff.mpr fun consolidated => ?_
  obtain ⟨old, before⟩ := consolidated_of_consolidate h sound composition (branch.lt_size sound')
    consolidated (Nat.ne_of_gt (Graph.lt_of_mem_ancestors (branch.mem_ancestors sound')))
  rw [drafts.grows.kind old] at composed
  rw [unmixed b (branch.back drafts.grows.toExtends sound sound' old) composed] at before
  cases before

/-- Merging gives a composition what its branches offer. -/
theorem consolidate_mergedAt {branches : List Nat} (h : Ends (consolidate d i) r branches t)
    (sound : r.graph.Sound) (composition : (r.graph.node i).kind.isComposition = true)
    (fresh : (r.graph.node i).consolidated = false) : t.MergedAt i branches := by
  have consolidated := (consolidate_drafts h sound composition).2
  obtain ⟨done, -⟩ | ⟨-, s, m, u, visit, merges, rfl, same⟩ := consolidate_cases h
  · rw [fresh] at done
    cases done
  have graph : t.graph = u.graph.modify i (Node.withProps (Text.sortByName Prod.fst m.props)) := by
    rw [same]
    rfl
  have filter : t.filter = u.filter := by
    rw [same]
    rfl
  have taken : t.consumedBy? i = some m.consumed := by
    rw [same]
    exact (Run.lookup_assign i).trans (if_pos rfl)
  have merging := Merging.of_ends visit merges sound composition fresh
  have sound₁ := merging.sound
  have below : ∀ b ∈ branchesBelow (s.marked i).graph i, b < (s.marked i).graph.size :=
    fun b mem => (sound₁.below (List.mem_filter.mp mem).1).2
  obtain ⟨visits', all, walks, done, consumed, nodup, props⟩ :=
    mergeLevels_adds merges sound₁ below (.start sound₁ i)
  have sound₂ := merging.sound_gathered
  obtain rfl : m.consumed = all := consumed
  have level := visits'.grows.branchesBelow merging.inside_marked merging.visited_marked sound₁
  have inside₂ := merging.inside_marked.trans_le visits'.grows.size_le
  -- The node is none of its branches, so these stay as they are.
  have ne : ∀ b ∈ m.consumed, b ≠ i := fun b mem => Nat.ne_of_gt (Graph.lt_of_mem_ancestors
    ((merging.gathered.branches b (.inl mem)).mem_ancestors sound₂))
  have filtering : t.isFiltering = s.isFiltering := by
    rw [same, Run.isFiltering_absorb, Run.isFiltering_onGraph]
    exact Run.isFiltering_congr (s := u) (r := s) visits'.filter visits'.stack
  refine ⟨?_, ?_, fun b => ⟨fun mem => ?_, fun branch => ?_⟩, nodup, fun b mem => ?_,
    ?_, fun d => ?_⟩
  · rw [graph, Graph.part_modify Node.visited fun _ => by rfl]
    exact merging.visited_gathered
  · rw [graph, Graph.branchesBelow_withProps, level]
    exact walks.withProps
  · rw [graph]
    exact (merging.gathered.branches b (.inl mem)).extend
      (.modify { Node.Keeps.refl (u.graph.node i) with })
  · rw [graph] at branch
    refine merging.gathered.consumed_of_branch (branch.of_modify ?_ ?_) <;> exact fun _ => rfl
  · rw [graph, Graph.size_modify, Graph.node_modify_of_ne (ne b mem)]
    exact done b mem
  · rw [graph, Graph.node_modify_self inside₂, filtering]
    refine congrArg (Text.sortByName Prod.fst) (props.trans (Graph.addOffers_congr fun b mem => ?_))
    exact (Run.offered_withProps sound₂ graph filter (ne b mem)).symm
  · refine Ends.bind_iff.mpr ⟨_, _, ends_node.mpr ⟨rfl, rfl⟩, ?_⟩
    rw [if_pos consolidated]
    exact Ends.bind_iff.mpr ⟨_, _, Ends.get_iff.mpr ⟨rfl, rfl⟩,
      Ends.pure_iff.mpr ⟨congrArg (Option.getD · []) taken, rfl⟩⟩

/-- Where nothing is filtered out, a composition that is merged gets the fields of all branches. -/
theorem consolidate_blends {branches : List Nat} (h : Ends (consolidate d i) r branches t)
    (sound : r.graph.Sound) (composition : (r.graph.node i).kind.isComposition = true)
    (fresh : (r.graph.node i).consolidated = false) (unfiltered : r.isFiltering = false)
    (unmixed : r.Unmixed i) : t.graph.IsBlend i := by
  have merged := consolidate_mergedAt h sound composition fresh
  have drafts := (consolidate_drafts h sound composition).1
  have sound' := drafts.sound sound
  have unmixed' := unmixed_consolidate h sound composition unmixed
  have off : t.isFiltering = false :=
    (Run.isFiltering_congr drafts.filter drafts.stack).trans unfiltered
  refine ⟨merged.visited, _, merged.walks.blends merged.done, ?_⟩
  rw [merged.props, off]
  exact congrArg _ (Graph.addOffers_congr fun b mem =>
    unmixed'.offered sound' ((merged.branch b).mp mem))

end Build

/-! ## Arguments -/

/-- What was merged in the arguments of an operation was merged in full, and is not merged into
something else. -/
structure Run.Plain (r : Run) : Prop where
  apart : ∀ {b}, (r.graph.node b).consolidated = true → r.graph.inArguments b = true →
    ¬r.graph.IsBranch b
  whole : ∀ {o}, (r.graph.node o).kind.isComposition = true →
    (r.graph.node o).consolidated = true → r.graph.inArguments o = true → r.graph.IsBlend o

namespace Graph

variable {g : Graph}

/-- What is inside arguments is a node of the graph. -/
theorem lt_size_of_inArguments (inside : g.inArguments i = true) : i < g.size :=
  lt_size_of_ne fun nowhere => by
    rw [inArguments, ancestors_of_root (by rw [nowhere]; rfl)] at inside
    cases inside

/-- What is below a node inside arguments is inside them. -/
theorem inArguments_of_mem_ancestors (inside : g.inArguments a = true) (above : a ∈ g.ancestors b) :
    g.inArguments b = true := by
  rw [inArguments, List.any_eq_true] at inside ⊢
  obtain ⟨x, high, tag⟩ := inside
  exact ⟨x, mem_ancestors_trans high above, tag⟩

end Graph

namespace Run.Plain

theorem same (plain : r.Plain) (graph : s.graph = r.graph) : s.Plain :=
  ⟨by rw [graph]; exact plain.apart, by rw [graph]; exact plain.whole⟩

theorem visits (plain : r.Plain) (visits : r.Visits d s) (sound : r.graph.Sound) : s.Plain := by
  have sound' := visits.sound sound
  have grows := visits.grows
  have before : ∀ {b}, (s.graph.node b).consolidated = true → s.graph.inArguments b = true →
      b < r.graph.size ∧ (r.graph.node b).consolidated = true ∧ r.graph.inArguments b = true :=
    fun {b} consolidated inside => by
      obtain ⟨old, consolidated⟩ :=
        visits.unmerged (Graph.lt_size_of_inArguments inside) consolidated
      exact ⟨old, consolidated, grows.inArguments old ▸ inside⟩
  refine ⟨fun {b} consolidated inside branch => ?_, fun {o} composition consolidated inside => ?_⟩
  · obtain ⟨old, consolidated, inside⟩ := before consolidated inside
    exact plain.apart consolidated inside (branch.back grows.toExtends sound sound' old)
  · obtain ⟨old, consolidated, inside⟩ := before consolidated inside
    rw [grows.kind old] at composition
    refine (plain.whole composition consolidated inside).grow grows sound old ?_
    rw [Node.isMerged, consolidated, Bool.or_true]

/-- Consolidating keeps a run plain, where the filter is off inside arguments. -/
theorem consolidate {branches : List Nat} (plain : r.Plain)
    (h : Ends (Build.consolidate d i) r branches s) (sound : r.graph.Sound)
    (composition : (r.graph.node i).kind.isComposition = true)
    (fits : r.graph.inArguments i = true → r.isFiltering = false ∧ ¬r.graph.IsBranch i) :
    s.Plain := by
  obtain ⟨drafts, -⟩ := Build.consolidate_drafts h sound composition
  have sound' := drafts.sound sound
  have grows := drafts.grows
  have before : ∀ {b}, (s.graph.node b).consolidated = true → s.graph.inArguments b = true →
      b ≠ i → b < r.graph.size ∧ (r.graph.node b).consolidated = true ∧
        r.graph.inArguments b = true := fun {b} consolidated inside ne => by
    obtain ⟨old, consolidated⟩ := Build.consolidated_of_consolidate h sound composition
      (Graph.lt_size_of_inArguments inside) consolidated ne
    exact ⟨old, consolidated, grows.inArguments old ▸ inside⟩
  have here : i < r.graph.size := Graph.lt_size_of_ne fun e => by
    rw [e] at composition
    cases composition
  have grown : ∀ {o}, o < r.graph.size → (r.graph.node o).kind.isComposition = true →
      (r.graph.node o).consolidated = true → r.graph.inArguments o = true → s.graph.IsBlend o :=
    fun old composition consolidated inside => by
      refine (plain.whole composition consolidated inside).grow grows sound old ?_
      rw [Node.isMerged, consolidated, Bool.or_true]
  refine ⟨fun {b} consolidated inside branch => ?_, fun {o} composed consolidated inside => ?_⟩
  · by_cases same : b = i
    · subst same
      rw [grows.inArguments here] at inside
      exact (fits inside).2 (branch.back grows.toExtends sound sound' here)
    · obtain ⟨old, consolidated, inside⟩ := before consolidated inside same
      exact plain.apart consolidated inside (branch.back grows.toExtends sound sound' old)
  · by_cases same : o = i
    · subst same
      rw [grows.inArguments here] at inside
      cases fresh : (r.graph.node o).consolidated with
      | true => exact grown here composition fresh inside
      | false =>
        refine Build.consolidate_blends h sound composition fresh (fits inside).1
          fun b branch _ => ?_
        refine Bool.eq_false_iff.mpr fun merged => plain.apart merged ?_ ⟨o, composition, branch⟩
        exact Graph.inArguments_of_mem_ancestors inside (branch.mem_ancestors sound)
    · obtain ⟨old, consolidated, inside⟩ := before consolidated inside same
      rw [grows.kind old] at composed
      exact grown old composed consolidated inside

end Run.Plain

end RestGraph
