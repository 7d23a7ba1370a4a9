import RestGraph.Graph.Basic

/-!
# The arena

What becomes of a node when the graph changes at one place: another node is modified, a node is
attached below another, a root is added. A handle without a node stays without one.
-/

namespace RestGraph

namespace Graph

variable {g : Graph} {i j p : Nat} {s : Seed} {f : Node → Node}

/-- Beyond the last node there is none. -/
@[simp] theorem node_of_size_le (h : g.size ≤ i) : g.node i = Node.nowhere := by
  rw [node, Array.getD_eq_getD_getElem?, Array.getElem?_eq_none h, Option.getD_none]

/-- An id that holds something is in use. -/
theorem lt_size_of_ne (h : g.node i ≠ Node.nowhere) : i < g.size :=
  Nat.lt_of_not_le fun size => h (node_of_size_le size)

/-- What is not visited yet is a node of the graph, as `Node.nowhere` counts as visited. -/
theorem lt_size_of_not_visited (h : (g.node i).visited = false) : i < g.size :=
  lt_size_of_ne fun e => by
    rw [e] at h
    cases h

/-- A node with a child is a node of the graph. -/
theorem lt_size_of_child {c : Nat} (h : c ∈ (g.node i).children) : i < g.size :=
  lt_size_of_ne fun e => by
    rw [e] at h
    cases h

/-- A node with an entry is a node of the graph. -/
theorem lt_size_of_prop {x : String × Nat} (h : x ∈ (g.node i).props) : i < g.size :=
  lt_size_of_ne fun e => by
    rw [e] at h
    cases h

/-- A node with a parent is a node of the graph. -/
theorem lt_size_of_parent (h : (g.node i).parent = some p) : i < g.size :=
  lt_size_of_ne fun e => by
    rw [e] at h
    cases h

theorem lt_size_of_not_array (h : (g.node i).kind.isArray = false) : i < g.size :=
  lt_size_of_ne fun e => by
    rw [e] at h
    cases h

/-! ## Modified nodes -/

/-- A modification makes no node. -/
@[simp] theorem size_modify : (g.modify i f).size = g.size := Array.size_modify

@[simp] theorem roots_modify : (g.modify i f).roots = g.roots := rfl

/-- A modification gives the node it is for. -/
@[simp] theorem node_modify_self (h : i < g.size) : (g.modify i f).node i = f (g.node i) := by
  change (g.nodes.modify i f).getD i _ = f (g.nodes.getD i _)
  rw [Array.getD_eq_getD_getElem?, Array.getD_eq_getD_getElem?, Array.getElem?_modify]
  simp [Array.getElem?_eq_getElem h]

/-- A modification leaves every other node as it is. -/
@[simp] theorem node_modify_of_ne (h : j ≠ i) : (g.modify i f).node j = g.node j := by
  change (g.nodes.modify i f).getD j _ = g.nodes.getD j _
  rw [Array.getD_eq_getD_getElem?, Array.getD_eq_getD_getElem?, Array.getElem?_modify,
    if_neg h.symm]

/-- The change of one node, seen from any node. -/
@[simp] theorem node_modify (h : i < g.size) (j : Nat) :
    (g.modify i f).node j = if j = i then f (g.node i) else g.node j := by
  split
  · next e => rw [e, node_modify_self h]
  · next e => rw [node_modify_of_ne e]

/-- A change where there is no node changes nothing. -/
@[simp] theorem modify_of_size_le (h : g.size ≤ i) : g.modify i f = g := by
  have same : g.nodes.modify i f = g.nodes := by
    refine Array.ext_getElem? fun j => ?_
    rw [Array.getElem?_modify]
    split
    · next e =>
      subst e
      rw [Array.getElem?_eq_none h]
      rfl
    · rfl
  rw [modify, same]

/-- A part of the nodes that the change leaves alone. -/
theorem part_modify {α : Type} (part : Node → α) (keep : ∀ n, part (f n) = part n) (j : Nat) :
    part ((g.modify i f).node j) = part (g.node j) := by
  by_cases h : i < g.size
  · rw [node_modify h]
    split
    · next e => rw [keep, e]
    · rfl
  · by_cases e : j = i
    · have size := Nat.le_of_not_lt h
      rw [e, node_of_size_le size, node_of_size_le (by rwa [size_modify])]
    · simp [e]

/-! ## New nodes -/

section Sprout

variable (parent : Option Nat)

@[simp] theorem kind_sprout : (g.sprout parent s).kind = s.kind := rfl

@[simp] theorem name_sprout : (g.sprout parent s).name = s.name := rfl

@[simp] theorem parent_sprout : (g.sprout parent s).parent = parent := rfl

@[simp] theorem children_sprout : (g.sprout parent s).children = [] := rfl

@[simp] theorem props_sprout : (g.sprout parent s).props = [] := rfl

@[simp] theorem visited_sprout : (g.sprout parent s).visited = false := rfl

@[simp] theorem consolidated_sprout : (g.sprout parent s).consolidated = false := rfl

@[simp] theorem schema_sprout : (g.sprout parent s).schema = s.schema := rfl

end Sprout

/-! ## Attached nodes -/

@[simp] theorem size_attach : (g.attach p s).size = g.size + 1 := by
  change ((g.nodes.push _).modify p _).size = _
  rw [Array.size_modify, Array.size_push]
  rfl

@[simp] theorem roots_attach : (g.attach p s).roots = g.roots := rfl

/-- `attach` pushes the new node and lists it with its parent. -/
theorem getElem?_attach : (g.attach p s).nodes[j]? =
    if p = j then ((g.nodes.push (g.sprout (some p) s))[j]?).map fun n =>
      { n with children := n.children ++ [g.size] }
    else (g.nodes.push (g.sprout (some p) s))[j]? := by
  change ((g.nodes.push _).modify p _)[j]? = _
  rw [Array.getElem?_modify]

/-- The new node is the last one. -/
@[simp] theorem node_attach_size (h : p < g.size) :
    (g.attach p s).node g.size = g.sprout (some p) s := by
  rw [node, Array.getD_eq_getD_getElem?, getElem?_attach, if_neg (Nat.ne_of_lt h)]
  simp [size]

theorem lt_size_attach : g.size < (g.attach p s).size :=
  Nat.lt_of_lt_of_eq (Nat.lt_succ_self _) size_attach.symm

/-- The new node has the kind of its seed. -/
@[simp] theorem kind_attach_size (h : p < g.size) :
    ((g.attach p s).node g.size).kind = s.kind := by
  simp [h]

/-- The parent lists the new node last. -/
@[simp] theorem node_attach_self (h : p < g.size) :
    (g.attach p s).node p = { g.node p with children := (g.node p).children ++ [g.size] } := by
  rw [node, Array.getD_eq_getD_getElem?, getElem?_attach, if_pos rfl,
    Array.getElem?_push_lt h, node, Array.getD_eq_getD_getElem?, Array.getElem?_eq_getElem h]
  rfl

/-- Every node but the parent and the new one is as it was. -/
@[simp]
theorem node_attach_of_ne (hp : j ≠ p) (hs : j ≠ g.size) : (g.attach p s).node j = g.node j := by
  rw [node, Array.getD_eq_getD_getElem?, getElem?_attach, if_neg hp.symm, Array.getElem?_push,
    if_neg (show j ≠ g.nodes.size from hs), node, Array.getD_eq_getD_getElem?]

/-- The nodes that were there differ at most in the children of the parent. -/
theorem node_attach_of_lt (h : j < g.size) : (g.attach p s).node j =
    if j = p then { g.node p with children := (g.node p).children ++ [g.size] } else g.node j := by
  split
  · next e =>
    simp [e, e ▸ h]
  · next e => rw [node_attach_of_ne e (Nat.ne_of_lt h)]

/-- The children of each node once one is attached. -/
theorem children_attach (inside : p < g.size) (j : Nat) : ((g.attach p s).node j).children =
    if j = p then (g.node p).children ++ [g.size] else (g.node j).children := by
  split
  · next e => rw [e, node_attach_self inside]
  · next e =>
    by_cases new : j = g.size
    · rw [new, node_attach_size inside, node_of_size_le (Nat.le_refl _)]
      rfl
    · rw [node_attach_of_ne e new]

/-- A child was there before, or is the new node. -/
theorem child_of_attach {c : Nat} (inside : p < g.size)
    (child : c ∈ ((g.attach p s).node j).children) :
    c ∈ (g.node j).children ∨ j = p ∧ c = g.size := by
  rw [children_attach inside] at child
  split at child
  · next e =>
    subst e
    exact (List.mem_append.mp child).imp_right fun new => ⟨rfl, List.mem_singleton.mp new⟩
  · exact .inl child

/-- A new child comes after its parent as the others do. -/
theorem below_attach {c : Nat} (below : ∀ {i c}, c ∈ (g.node i).children → i < c ∧ c < g.size)
    (inside : p < g.size) (child : c ∈ ((g.attach p s).node i).children) :
    i < c ∧ c < (g.attach p s).size := by
  rw [size_attach]
  rcases child_of_attach inside child with old | ⟨rfl, rfl⟩
  · exact ⟨(below old).1, Nat.lt_succ_of_lt (below old).2⟩
  · exact ⟨inside, Nat.lt_succ_self _⟩

/-- A part of the nodes other than the children, at the nodes that were there. -/
theorem part_attach_of_lt {α : Type} (part : Node → α)
    (keep : ∀ n cs, part { n with children := cs } = part n) (h : j < g.size) :
    part ((g.attach p s).node j) = part (g.node j) := by
  rw [node_attach_of_lt h]
  split
  · next e => rw [keep, e]
  · rfl

/-- A part of the nodes other than the children: the new node has its own, the others keep
theirs. -/
theorem part_attach {α : Type} (part : Node → α)
    (keep : ∀ n cs, part { n with children := cs } = part n) (j : Nat) :
    part ((g.attach p s).node j) =
      if j = g.size then part (g.sprout (some p) s) else part (g.node j) := by
  split
  · next new =>
    have pushed : (g.nodes.push (g.sprout (some p) s))[j]? = some (g.sprout (some p) s) := by
      rw [new]
      exact Array.getElem?_push_size
    rw [node, Array.getD_eq_getD_getElem?, getElem?_attach, pushed]
    split
    · exact keep _ _
    · rfl
  · next other =>
    rcases Nat.lt_or_gt_of_ne other with old | out
    · exact part_attach_of_lt part keep old
    · rw [node_of_size_le (by rw [size_attach]; exact out), node_of_size_le (Nat.le_of_lt out)]

/-- The kinds of the nodes once one is attached. -/
@[simp] theorem kind_attach (j : Nat) : ((g.attach p s).node j).kind =
    if j = g.size then s.kind else (g.node j).kind := part_attach Node.kind (fun _ _ => rfl) j

/-- The parents of the nodes once one is attached. -/
@[simp] theorem parent_attach (j : Nat) : ((g.attach p s).node j).parent =
    if j = g.size then some p else (g.node j).parent := part_attach Node.parent (fun _ _ => rfl) j

@[simp] theorem schema_attach (j : Nat) : ((g.attach p s).node j).schema =
    if j = g.size then s.schema else (g.node j).schema := part_attach Node.schema (fun _ _ => rfl) j

/-- Only the new node is not visited by what `attach` does. -/
@[simp] theorem visited_attach (j : Nat) : ((g.attach p s).node j).visited =
    if j = g.size then false else (g.node j).visited := part_attach Node.visited (fun _ _ => rfl) j

@[simp] theorem consolidated_attach (j : Nat) : ((g.attach p s).node j).consolidated =
    if j = g.size then false else (g.node j).consolidated :=
  part_attach Node.consolidated (fun _ _ => rfl) j

/-- A new child knows its parent as the others do. -/
theorem parent_of_child_attach {c : Nat}
    (below : ∀ {i c}, c ∈ (g.node i).children → i < c ∧ c < g.size)
    (parent : ∀ {i c}, c ∈ (g.node i).children → (g.node c).parent = some i) (inside : p < g.size)
    (child : c ∈ ((g.attach p s).node i).children) :
    ((g.attach p s).node c).parent = some i := by
  rw [parent_attach]
  rcases child_of_attach inside child with old | ⟨rfl, rfl⟩
  · rw [if_neg (Nat.ne_of_lt (below old).2)]
    exact parent old
  · rw [if_pos rfl]

/-- The nodes there were keep their kinds. -/
@[simp]
theorem kind_attach_of_lt (h : j < g.size) : ((g.attach p s).node j).kind = (g.node j).kind := by
  simp [Nat.ne_of_lt h]

/-- A new node has no fields. -/
@[simp] theorem props_attach (j : Nat) : ((g.attach p s).node j).props = (g.node j).props := by
  rw [part_attach Node.props fun _ _ => rfl]
  split
  · next e =>
    rw [e, node_of_size_le (Nat.le_refl _)]
    rfl
  · rfl

/-! ## Added roots -/

@[simp] theorem size_addRoot : (g.addRoot s).size = g.size + 1 := Array.size_push _

/-- The new node is the last root. -/
@[simp] theorem roots_addRoot : (g.addRoot s).roots = g.roots ++ [g.size] := rfl

/-- The nodes there were stay as they are when a root is added. -/
@[simp] theorem node_addRoot (j : Nat) :
    (g.addRoot s).node j = if j = g.size then g.sprout none s else g.node j := by
  have pushed : (g.addRoot s).node j = ((g.nodes.push (g.sprout none s))[j]?).getD Node.nowhere :=
    Array.getD_eq_getD_getElem?
  rw [pushed, Array.getElem?_push]
  split
  · next e => exact (if_pos (show j = g.size from e)).symm
  · next e =>
    rw [if_neg (show j ≠ g.size from e), node, Array.getD_eq_getD_getElem?]

/-- A part in which the new root does not differ from a handle without a node. -/
theorem part_addRoot {α : Type} (part : Node → α)
    (keep : part (g.sprout none s) = part Node.nowhere) (j : Nat) :
    part ((g.addRoot s).node j) = part (g.node j) := by
  rw [node_addRoot]
  split
  · next e => rw [keep, e, node_of_size_le (Nat.le_refl _)]
  · rfl

end Graph

end RestGraph
