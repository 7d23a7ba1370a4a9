import Mathlib.Data.List.Nodup
import RestGraph.Graph.Start
import RestGraph.Proofs.Graph.Moves

/-!
# The forest

Children come after their parents, every node but a root is the child of one node, and every node
stands where its kind may stand. It is so for the first graph and stays so under every move,
whatever becomes of the fields that nodes have.
-/

namespace RestGraph

namespace Kind

variable {k k' c c' : Kind}

/-- A kind admits children by their tag alone. -/
theorem admits_of_tag (h : c'.tag = c.tag) : k.admits c' = k.admits c := by
  have schema : c'.isSchema = c.isSchema := by cases c <;> cases c' <;> first | rfl | cases h
  have prop : c'.isProperty = c.isProperty := by rw [isProperty, isProperty, h]
  cases k with
  | property shape _ => cases shape <;> simp only [admits, schema, prop, h]
  | _ => simp only [admits, schema, prop, h]

theorem Turns.isNarrow (h : k.Turns k') : k'.isNarrow = k.isNarrow := by
  rcases h with rfl | ⟨_, _, rfl, _, rfl⟩ <;> rfl

theorem Turns.isEager (h : k.Turns k') : k'.isEager = k.isEager := by
  rcases h with rfl | ⟨_, _, rfl, _, rfl⟩ <;> rfl

@[simp] theorem isNarrow_of_isWrapper (wrapper : k.isWrapper = true) :
    k.isNarrow = true := by
  cases k <;> first | rfl | cases wrapper

/-- No field stands below a wrapper. -/
theorem not_isProperty_of_wrapped (wrapper : k.isWrapper = true)
    (admits : k.admits k' = true) : k'.isProperty = false := by
  cases k' <;> first | rfl | skip
  cases k with
  | property shape =>
    cases shape with
    | scalar | array => cases wrapper
    | _ => cases admits
  | reference => cases admits
  | _ => cases wrapper

end Kind

namespace Graph

/-! ## Changes to one node -/

section Change

variable {g : Graph} {i : Nat} {f : Node → Node}

/-- A modification that keeps the children of its node keeps those of every node. -/
theorem children_modify (inside : i < g.size)
    (children : (f (g.node i)).children = (g.node i).children) (j : Nat) :
    ((g.modify i f).node j).children = (g.node j).children := by
  rw [node_modify inside]
  split
  · next e => rw [e, children]
  · rfl

/-- A modification that keeps its node keeps every node. -/
theorem keeps_modify (inside : i < g.size) (keep : (g.node i).Keeps (f (g.node i))) (j : Nat) :
    (g.node j).Keeps ((g.modify i f).node j) := by
  rw [node_modify inside]
  split
  · next e => rw [e]; exact keep
  · exact .refl _

end Change

/-! ## Forests -/

structure Forest (g : Graph) : Prop where
  below : ∀ {i c}, c ∈ (g.node i).children → i < c ∧ c < g.size
  parent : ∀ {i c}, c ∈ (g.node i).children → (g.node c).parent = some i
  child : ∀ {i c}, (g.node c).parent = some i → c ∈ (g.node i).children
  sorted : ∀ i, (g.node i).children.Pairwise (· < ·)
  admits : ∀ {i c}, c ∈ (g.node i).children → (g.node i).kind.admits (g.node c).kind = true
  narrow : ∀ {i}, (g.node i).kind.isNarrow = true → (g.node i).children.length ≤ 1
  late : ∀ {i}, (g.node i).kind.isEager = false → (g.node i).visited = false →
    (g.node i).children = []
  single : ∀ {i a b}, a ∈ (g.node i).children → b ∈ (g.node i).children →
    (g.node a).kind.tag = (g.node b).kind.tag → (g.node a).kind.tag.isSingle = true → a = b

namespace Forest

variable {d : Document} {g h : Graph} {i p : Nat}

theorem parent_lt (forest : g.Forest) (parent : (g.node i).parent = some p) : p < i :=
  (forest.below (forest.child parent)).1

/-- The ancestors of a child are its parent and the ancestors of its parent. -/
theorem ancestors_of_child (forest : g.Forest) {c : Nat} (child : c ∈ (g.node i).children) :
    g.ancestors c = i :: g.ancestors i :=
  ancestors_of_parent (forest.parent child) (forest.below child).1

/-! ### An attached node -/

section Attach

variable {s : Seed} {a b c j : Nat}

/-- Every node is among the children of its parent, the new one as the last of them. -/
theorem child_attach (forest : g.Forest) (inside : p < g.size)
    (above : ((g.attach p s).node c).parent = some j) :
    c ∈ ((g.attach p s).node j).children := by
  rw [parent_attach] at above
  rw [children_attach inside]
  split at above
  · next e =>
    cases above
    rw [if_pos rfl, e]
    exact List.mem_append_right _ (List.mem_singleton_self _)
  · have child := forest.child above
    split
    · next e => exact List.mem_append_left _ (e ▸ child)
    · exact child

/-- Children stay listed from the oldest to the youngest. -/
theorem sorted_attach (forest : g.Forest) (inside : p < g.size) (j : Nat) :
    ((g.attach p s).node j).children.Pairwise (· < ·) := by
  rw [children_attach inside]
  split
  · refine List.pairwise_append.mpr ⟨forest.sorted p, List.pairwise_singleton _ _, ?_⟩
    intro a ha b hb
    rw [List.mem_singleton.mp hb]
    exact (forest.below ha).2
  · exact forest.sorted j

/-- Children stay of the kinds their parents admit. -/
theorem admits_attach (forest : g.Forest) (inside : p < g.size)
    (admits : (g.node p).kind.admits s.kind = true)
    (child : c ∈ ((g.attach p s).node j).children) :
    ((g.attach p s).node j).kind.admits ((g.attach p s).node c).kind = true := by
  rcases child_of_attach inside child with child | ⟨rfl, rfl⟩
  · rw [kind_attach_of_lt (lt_size_of_child child), kind_attach_of_lt (forest.below child).2]
    exact forest.admits child
  · rw [kind_attach_of_lt inside, kind_attach_size inside]
    exact admits

/-- A narrow node has room for the new child if it had none. -/
theorem narrow_attach (forest : g.Forest) (inside : p < g.size)
    (room : (g.node p).kind.isNarrow = true → (g.node p).children = [])
    (narrow : ((g.attach p s).node j).kind.isNarrow = true) :
    ((g.attach p s).node j).children.length ≤ 1 := by
  rw [kind_attach] at narrow
  rw [children_attach inside]
  split
  · next e =>
    subst e
    rw [if_neg (Nat.ne_of_lt inside)] at narrow
    rw [room narrow]
    exact Nat.le_refl _
  · split at narrow
    · next e =>
      rw [e, node_of_size_le (Nat.le_refl _)]
      exact Nat.zero_le _
    · exact forest.narrow narrow

/-- What was not visited has no children still, as the parent was. -/
theorem late_attach (forest : g.Forest) (inside : p < g.size)
    (due : (g.node p).kind.isEager = false → (g.node p).visited = true)
    (eager : ((g.attach p s).node j).kind.isEager = false)
    (visited : ((g.attach p s).node j).visited = false) :
    ((g.attach p s).node j).children = [] := by
  rw [visited_attach] at visited
  rw [kind_attach] at eager
  rw [children_attach inside]
  split at eager
  · next e =>
    rw [if_neg (e ▸ (Nat.ne_of_lt inside).symm), e, node_of_size_le (Nat.le_refl _)]
    rfl
  · next e =>
    rw [if_neg e] at visited
    split
    · next e' =>
      subst e'
      rw [due eager] at visited
      cases visited
    · exact forest.late eager visited

/-- The new node is the only one of its kind, if there may be one only. -/
theorem single_attach (forest : g.Forest) (inside : p < g.size)
    (single : s.kind.tag.isSingle = true → g.Lacks p s.kind.tag)
    (first : a ∈ ((g.attach p s).node j).children) (second : b ∈ ((g.attach p s).node j).children)
    (same : ((g.attach p s).node a).kind.tag = ((g.attach p s).node b).kind.tag)
    (one : ((g.attach p s).node a).kind.tag.isSingle = true) : a = b := by
  have old : ∀ {c}, c ∈ (g.node j).children →
      ((g.attach p s).node c).kind = (g.node c).kind := fun child =>
    kind_attach_of_lt (forest.below child).2
  have new : ∀ {c}, c = g.size → ((g.attach p s).node c).kind = s.kind := fun e =>
    e ▸ kind_attach_size inside
  rcases child_of_attach inside first with first | ⟨rfl, ea⟩ <;>
    rcases child_of_attach inside second with second | ⟨e, eb⟩
  · rw [old first] at same one
    rw [old second] at same
    exact forest.single first second same one
  · rw [old first, new eb] at same
    rw [old first, same] at one
    exact absurd same (single one a (e ▸ first))
  · rw [new ea, old second] at same
    rw [new ea] at one
    exact absurd same.symm (single one b second)
  · rw [ea, eb]

/-- A node that its parent admits and has room for may be attached. -/
theorem attach (forest : g.Forest) (inside : p < g.size)
    (admits : (g.node p).kind.admits s.kind = true)
    (room : (g.node p).kind.isNarrow = true → (g.node p).children = [])
    (due : (g.node p).kind.isEager = false → (g.node p).visited = true)
    (single : s.kind.tag.isSingle = true → g.Lacks p s.kind.tag) : (g.attach p s).Forest where
  below := below_attach forest.below inside
  parent := parent_of_child_attach forest.below forest.parent inside
  child := forest.child_attach inside
  sorted := forest.sorted_attach inside
  admits := forest.admits_attach inside admits
  narrow := forest.narrow_attach inside room
  late := forest.late_attach inside due
  single := forest.single_attach inside single

end Attach

/-! ### A changed node -/

/-- A node may change what it has besides its place. -/
theorem modify (forest : g.Forest) {f : Node → Node} (inside : i < g.size)
    (keep : (g.node i).Keeps (f (g.node i)))
    (children : (f (g.node i)).children = (g.node i).children)
    (admits : ∀ c ∈ (g.node i).children, (f (g.node i)).kind.admits (g.node c).kind = true) :
    (g.modify i f).Forest := by
  have node : ∀ j, (g.modify i f).node j = if j = i then f (g.node i) else g.node j :=
    node_modify inside
  have keeps := keeps_modify inside keep
  have sameChildren := children_modify inside children
  constructor
  case below =>
    intro j c child
    rw [sameChildren] at child
    rw [size_modify]
    exact forest.below child
  case parent =>
    intro j c child
    rw [sameChildren] at child
    rw [(keeps c).parent]
    exact forest.parent child
  case child =>
    intro j c parent
    rw [(keeps c).parent] at parent
    rw [sameChildren]
    exact forest.child parent
  case sorted =>
    intro j
    rw [sameChildren]
    exact forest.sorted j
  case admits =>
    intro j c child
    rw [sameChildren] at child
    rw [Kind.admits_of_tag (keeps c).kind.tag, node]
    split
    · next e => exact admits c (e ▸ child)
    · exact forest.admits child
  case narrow =>
    intro j narrow
    rw [(keeps j).kind.isNarrow] at narrow
    rw [sameChildren]
    exact forest.narrow narrow
  case late =>
    intro j eager visited
    rw [(keeps j).kind.isEager] at eager
    rw [sameChildren]
    refine forest.late eager (Bool.eq_false_iff.mpr fun v => ?_)
    rw [(keeps j).visited v] at visited
    cases visited
  case single =>
    intro j a b ha hb same one
    rw [sameChildren] at ha hb
    rw [(keeps _).kind.tag, (keeps _).kind.tag] at same
    rw [(keeps _).kind.tag] at one
    exact forest.single ha hb same one

/-- What only touches marks and fields leaves the forest as it is. -/
theorem mark (forest : g.Forest) {f : Node → Node} (inside : i < g.size)
    (keep : (g.node i).Keeps (f (g.node i)))
    (children : (f (g.node i)).children = (g.node i).children)
    (kind : (f (g.node i)).kind = (g.node i).kind) : (g.modify i f).Forest :=
  forest.modify inside keep children fun _ child => kind ▸ forest.admits child

/-- A wrapper whose children all close cycles may turn circular itself. -/
theorem turn (forest : g.Forest) {shape : PropShape} {required : Bool}
    (kind : (g.node i).kind = .property shape required) (wraps : shape.isWrapper = true)
    (closed : ∀ c ∈ (g.node i).children, (g.node c).kind.tag = .circular) :
    (g.modify i fun n => { n with kind := .property .circular required }).Forest := by
  have inside : i < g.size := lt_size_of_ne fun e => by
    rw [e] at kind
    cases kind
  refine forest.modify inside
    { Node.Keeps.refl (g.node i) with kind := .inr ⟨shape, required, kind, wraps, rfl⟩ } rfl
    fun c child => ?_
  exact beq_iff_eq.mpr (closed c child)

theorem move (forest : g.Forest) (step : Move d g h) : h.Forest := by
  cases step with
  | attach inside admits room due sprouts =>
    exact forest.attach inside admits room due sprouts.single
  | @visit i inside =>
    exact forest.mark inside { Node.Keeps.refl (g.node i) with visited := fun _ => rfl } rfl rfl
  | turn kind wraps closed => exact forest.turn kind wraps closed
  | @field i _ _ _ child =>
    exact forest.mark (lt_size_of_child child) { Node.Keeps.refl (g.node i) with } rfl rfl
  | @consolidate i inside =>
    exact forest.mark inside { Node.Keeps.refl (g.node i) with consolidated := fun _ => rfl }
      rfl rfl
  | @merge i _ composition =>
    have inside : i < g.size := lt_size_of_ne fun e => by
      rw [e] at composition
      cases composition
    exact forest.mark inside { Node.Keeps.refl (g.node i) with } rfl rfl

theorem moves (forest : g.Forest) (steps : Moves d g h) : h.Forest := by
  induction steps with
  | refl => exact forest
  | tail _ step ih => exact ih.move step

theorem empty : Graph.empty.Forest := by
  have bare : ∀ j, Graph.empty.node j = Node.nowhere := fun j => node_of_size_le (Nat.zero_le j)
  have childless : ∀ {j c}, c ∉ (Graph.empty.node j).children := fun {j c} child => by
    rw [bare] at child
    cases child
  constructor
  case below => exact fun child => absurd child childless
  case parent => exact fun child => absurd child childless
  case child =>
    intro j c parent
    rw [bare] at parent
    cases parent
  case sorted =>
    intro j
    rw [bare]
    exact .nil
  case admits => exact fun child => absurd child childless
  case narrow =>
    intro j _
    rw [bare]
    exact Nat.zero_le _
  case late =>
    intro j _ _
    rw [bare]
    rfl
  case single => exact fun child => absurd child childless

theorem addRoot (forest : g.Forest) {s : Seed} : (g.addRoot s).Forest := by
  have children := part_addRoot (g := g) (s := s) Node.children rfl
  have parent := part_addRoot (g := g) (s := s) Node.parent rfl
  have old : ∀ {j}, j < g.size → (g.addRoot s).node j = g.node j := fun lt => by
    simp [Nat.ne_of_lt lt]
  have childless : ∀ {j}, g.size ≤ j → (g.node j).children = [] := fun size => by
    rw [node_of_size_le size]
    rfl
  constructor
  case below =>
    intro j c child
    rw [children] at child
    rw [size_addRoot]
    exact ⟨(forest.below child).1, (forest.below child).2.trans (Nat.lt_succ_self _)⟩
  case parent =>
    intro j c child
    rw [children] at child
    rw [parent]
    exact forest.parent child
  case child =>
    intro j c above
    rw [parent] at above
    rw [children]
    exact forest.child above
  case sorted =>
    intro j
    rw [children]
    exact forest.sorted j
  case admits =>
    intro j c child
    rw [children] at child
    have bounds := forest.below child
    rw [old bounds.2, old (bounds.1.trans bounds.2)]
    exact forest.admits child
  case narrow =>
    intro j narrow
    rw [children]
    by_cases lt : j < g.size
    · rw [old lt] at narrow
      exact forest.narrow narrow
    · rw [childless (Nat.le_of_not_lt lt)]
      exact Nat.zero_le _
  case late =>
    intro j eager visited
    rw [children]
    by_cases lt : j < g.size
    · rw [old lt] at eager visited
      exact forest.late eager visited
    · exact childless (Nat.le_of_not_lt lt)
  case single =>
    intro j a b ha hb same one
    rw [children] at ha hb
    rw [old (forest.below ha).2, old (forest.below hb).2] at same
    rw [old (forest.below ha).2] at one
    exact forest.single ha hb same one

/-- The operations of one entry may be added to a forest. -/
theorem addOperations (forest : g.Forest) (taken : List String) (entries : List OperationEntry) :
    (g.addOperations taken entries).Forest := by
  induction entries generalizing g taken with
  | nil => exact forest
  | cons e rest ih => exact ih forest.addRoot _

end Forest

/-- **The graph of a document starts as a forest.** -/
theorem ofDocument_forest (d : Document) : (ofDocument d).Forest := Forest.empty.addOperations _ _

/-! ## Ways -/

variable {g : Graph} {e i l : Nat}

/-- The way down to what is below a node goes through one of its children. -/
theorem Forest.exists_child_of_mem_ancestors (forest : g.Forest) (below : i ∈ g.ancestors l) :
    ∃ c ∈ (g.node i).children, c = l ∨ c ∈ g.ancestors l := by
  fun_induction ancestors g l with
  | case1 => cases below
  | case2 l p parent lt ih =>
    rcases List.mem_cons.mp below with rfl | below
    · exact ⟨l, forest.child parent, .inl rfl⟩
    · obtain ⟨c, child, rfl | way⟩ := ih below
      · exact ⟨c, child, .inr List.mem_cons_self⟩
      · exact ⟨c, child, .inr (List.mem_cons_of_mem _ way)⟩
  | case3 => cases below

/-- Below wrappers there is nothing beside the way to the target. -/
theorem Forest.targetOf_of_below (forest : g.Forest) (last : (g.node (g.targetOf i)).children = [])
    (below : i ∈ g.ancestors l) :
    g.targetOf l = g.targetOf i ∧ (g.node l).isProperty = false := by
  fun_induction targetOf g i with
  | case1 i wrapper first bounds found ih =>
    obtain ⟨rest, children⟩ := firstBelow?_eq_some found
    obtain ⟨c, child, way⟩ := forest.exists_child_of_mem_ancestors below
    have alone := forest.narrow (Kind.isNarrow_of_isWrapper wrapper)
    rw [children, List.length_cons] at alone
    obtain rfl := List.eq_nil_of_length_eq_zero (Nat.le_zero.mp (Nat.le_of_succ_le_succ alone))
    have admits := forest.admits child
    obtain rfl : c = first := by rwa [children, List.mem_singleton] at child
    rcases way with rfl | below
    · exact ⟨rfl, Kind.not_isProperty_of_wrapped wrapper admits⟩
    · exact ih last below
  | case2 i | case3 i =>
    obtain ⟨c, child, -⟩ := forest.exists_child_of_mem_ancestors below
    rw [last] at child
    cases child

theorem Forest.childless_of_enum (forest : g.Forest) (enum : (g.node e).kind.tag = .enum) :
    (g.node e).children = [] := by
  refine List.eq_nil_iff_forall_not_mem.mpr fun c child => ?_
  have admits := forest.admits child
  cases kind : (g.node e).kind with
  | enum =>
    rw [kind] at admits
    cases admits
  | _ =>
    rw [kind] at enum
    cases enum

theorem Forest.childless_of_circular (forest : g.Forest)
    (circular : (g.node e).kind.tag = .circular) : (g.node e).children = [] := by
  refine List.eq_nil_iff_forall_not_mem.mpr fun c child => ?_
  have admits := forest.admits child
  cases kind : (g.node e).kind with
  | circular =>
    rw [kind] at admits
    cases admits
  | _ =>
    rw [kind] at circular
    cases circular

end Graph

end RestGraph
