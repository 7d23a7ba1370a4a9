import Mathlib.Data.Set.Insert
import RestGraph.Proofs.Graph.Arena

/-!
# Growth

What no step takes back. A graph grows by new nodes; a node that was there keeps its place and all
that it was made from. Only the nodes that a step works on, called busy, get children or fields; a
composition may also be merged, once.
-/

namespace RestGraph

/-- Whether the fields of a node are those of its branches. -/
def Kind.isComposition : Kind → Bool
  | composed | union => true
  | _ => false

/-- A composition is no object. -/
theorem Kind.not_object_of_isComposition {k : Kind} (composition : k.isComposition = true) :
    k.tag ≠ .object := by
  cases k <;> first | exact Tag.noConfusion | cases composition

/-- A property that wraps a value may turn out to close a cycle. -/
def Kind.Turns (k k' : Kind) : Prop :=
  k' = k ∨ ∃ shape required, k = .property shape required ∧ shape.isWrapper ∧
    k' = .property .circular required

namespace Kind.Turns

variable {k k' k'' : Kind}

theorem refl (k : Kind) : Turns k k := .inl rfl

theorem trans (h : Turns k k') (h' : Turns k' k'') : Turns k k'' := by
  rcases h with rfl | ⟨shape, required, rfl, wraps, rfl⟩
  · exact h'
  · rcases h' with rfl | ⟨_, _, e, _, rfl⟩
    · exact .inr ⟨shape, required, rfl, wraps, rfl⟩
    · cases e
      exact .inr ⟨shape, required, rfl, wraps, rfl⟩

/-- Only properties turn. -/
theorem eq_of_not_isProperty (h : Turns k k') (prop : k.isProperty = false) : k' = k := by
  rcases h with rfl | ⟨_, _, rfl, _, _⟩
  · rfl
  · cases prop

/-- A turn keeps the tag of a kind. -/
theorem tag (h : Turns k k') : k'.tag = k.tag := by
  rcases h with rfl | ⟨_, _, rfl, _, rfl⟩ <;> rfl

theorem isProperty (h : Turns k k') : k'.isProperty = k.isProperty := by
  rcases h with rfl | ⟨_, _, rfl, _, rfl⟩ <;> rfl

/-- A turn leaves whether a kind wraps. -/
theorem isWrapper (h : Turns k k') : k'.isWrapper = k.isWrapper := by
  rcases h with rfl | ⟨_, _, rfl, wraps, rfl⟩
  · rfl
  · exact wraps.symm

theorem isArray (h : Turns k k') : k'.isArray = k.isArray := by
  rcases h with rfl | ⟨shape, _, rfl, wraps, rfl⟩
  · rfl
  · cases shape <;> first | rfl | cases wraps

end Kind.Turns

namespace Node

/-- Whether the fields of the node are there: those of a composition are gathered last. -/
def isMerged (n : Node) : Bool := !n.kind.isComposition || n.consolidated

/-- The parts of a node that stay, and those that only increase. -/
structure Keeps (n n' : Node) : Prop where
  name : n'.name = n.name
  parent : n'.parent = n.parent
  schema : n'.schema = n.schema
  discriminant : n'.discriminant = n.discriminant
  scope : n'.scope = n.scope
  lineage : n'.lineage = n.lineage
  kind : n.kind.Turns n'.kind
  children : n.children <+: n'.children
  visited : n.visited = true → n'.visited = true
  consolidated : n.consolidated = true → n'.consolidated = true

namespace Keeps

variable {n n' n'' : Node}

theorem refl (n : Node) : Keeps n n :=
  ⟨rfl, rfl, rfl, rfl, rfl, rfl, .refl _, List.prefix_refl _, fun h => h, fun h => h⟩

theorem trans (h : Keeps n n') (h' : Keeps n' n'') : Keeps n n'' where
  name := h'.name.trans h.name
  parent := h'.parent.trans h.parent
  schema := h'.schema.trans h.schema
  discriminant := h'.discriminant.trans h.discriminant
  scope := h'.scope.trans h.scope
  lineage := h'.lineage.trans h.lineage
  kind := h.kind.trans h'.kind
  children := h.children.trans h'.children
  visited := h'.visited ∘ h.visited
  consolidated := h'.consolidated ∘ h.consolidated

/-- A composition that is kept is a composition. -/
theorem isComposition (h : Keeps n n') : n'.kind.isComposition = n.kind.isComposition := by
  rcases h.kind with e | ⟨_, _, e, _, e'⟩
  · rw [e]
  · rw [e, e']
    rfl

/-- A merged node that is kept stays merged. -/
theorem isMerged (h : Keeps n n') (merged : n.isMerged = true) : n'.isMerged = true := by
  unfold Node.isMerged at merged ⊢
  rw [h.isComposition]
  rcases (Bool.or_eq_true _ _).mp merged with single | consolidated
  · rw [single, Bool.true_or]
  · rw [h.consolidated consolidated, Bool.or_true]

end Keeps

end Node

namespace Graph

/-- Between two graphs nothing was taken back. -/
structure Extends (g h : Graph) : Prop where
  size_le : g.size ≤ h.size
  roots : h.roots = g.roots
  keeps : ∀ {i}, i < g.size → (g.node i).Keeps (h.node i)

/-- Nothing was taken back, and only busy nodes have got children or other fields. -/
structure Grows (busy : Set Nat) (g h : Graph) : Prop extends g.Extends h where
  kind : ∀ {i}, i < g.size → (h.node i).kind = (g.node i).kind
  children : ∀ {i}, i < g.size → i ∉ busy → (h.node i).children = (g.node i).children
  props : ∀ {i}, i < g.size → i ∉ busy → (g.node i).isMerged = true →
    (h.node i).props = (g.node i).props

/-- The nodes that a visit may still work on. -/
def unvisited (g : Graph) : Set Nat := { i | (g.node i).visited = false }

/-- The unvisited nodes are those whose visit is due. -/
@[simp] theorem notMem_unvisited {g : Graph} {i : Nat} :
    i ∉ g.unvisited ↔ (g.node i).visited = true := iff_of_eq (Bool.not_eq_false _)

namespace Extends

variable {g h k : Graph} {i p : Nat}

theorem refl (g : Graph) : g.Extends g := ⟨Nat.le_refl _, rfl, fun _ => .refl _⟩

theorem trans (first : g.Extends h) (second : h.Extends k) : g.Extends k where
  size_le := first.size_le.trans second.size_le
  roots := second.roots.trans first.roots
  keeps lt := (first.keeps lt).trans (second.keeps (lt.trans_le first.size_le))

/-- A node that is unvisited after growth was so before. -/
theorem unvisited (step : g.Extends h) (lt : i < g.size) (free : i ∈ h.unvisited) :
    i ∈ g.unvisited :=
  Bool.eq_false_iff.mpr fun visited => notMem_unvisited.mpr ((step.keeps lt).visited visited) free

/-- A graph extends when a node is attached. -/
theorem attach {s : Seed} : g.Extends (g.attach p s) where
  size_le := by
    rw [size_attach]
    exact Nat.le_succ _
  roots := rfl
  keeps {i} lt := by
    rw [node_attach_of_lt lt]
    split
    · next e =>
      rw [e]
      exact { Node.Keeps.refl (g.node p) with children := List.prefix_append _ _ }
    · exact .refl _

/-- A graph extends when a node is replaced by one that keeps it. -/
theorem modify {f : Node → Node} (keep : (g.node i).Keeps (f (g.node i))) :
    g.Extends (g.modify i f) where
  size_le := by simp
  roots := rfl
  keeps {j} lt := by
    by_cases e : j = i
    · rw [e] at lt ⊢
      rw [node_modify_self lt]
      exact keep
    · rw [node_modify_of_ne e]
      exact .refl _

end Extends

namespace Grows

variable {busy busy' : Set Nat} {g h k : Graph} {i p : Nat}

theorem refl (busy : Set Nat) (g : Graph) : Grows busy g g :=
  ⟨.refl g, fun _ => rfl, fun _ _ => rfl, fun _ _ _ => rfl⟩

/-- What the second step works on was worked on by the first, or is new. -/
theorem trans (first : Grows busy g h) (second : Grows busy' h k)
    (sub : ∀ i < g.size, i ∈ busy' → i ∈ busy) : Grows busy g k where
  toExtends := first.toExtends.trans second.toExtends
  kind lt := (second.kind (lt.trans_le first.size_le)).trans (first.kind lt)
  children lt free :=
    (second.children (lt.trans_le first.size_le) (free ∘ sub _ lt)).trans (first.children lt free)
  props lt free merged :=
    (second.props (lt.trans_le first.size_le) (free ∘ sub _ lt)
      ((first.keeps lt).isMerged merged)).trans (first.props lt free merged)

/-- More nodes may be busy. -/
theorem mono (step : Grows busy g h) (sub : ∀ i < g.size, i ∈ busy → i ∈ busy') :
    Grows busy' g h :=
  (refl busy' g).trans step sub

/-- A step that works on no node can be made at any time. -/
theorem idle (step : Grows ∅ g h) : Grows busy g h :=
  step.mono fun _ _ none => absurd none (Set.notMem_empty _)

/-- While a node is attached, its parent is the one that is busy. -/
theorem attach {s : Seed} : Grows {p} g (g.attach p s) where
  toExtends := .attach
  kind lt := kind_attach_of_lt lt
  children {_} lt free := by rw [node_attach_of_ne free (Nat.ne_of_lt lt)]
  props _ _ _ := props_attach _

/-- While a node is modified, it is the one that is busy. -/
theorem modify {f : Node → Node} (keep : (g.node i).Keeps (f (g.node i)))
    (kind : (f (g.node i)).kind = (g.node i).kind) : Grows {i} g (g.modify i f) where
  toExtends := .modify keep
  kind {j} lt := by
    by_cases e : j = i
    · rw [e] at lt ⊢
      simp [lt, kind]
    · rw [node_modify_of_ne e]
  children _ free := by rw [node_modify_of_ne free]
  props _ free _ := by rw [node_modify_of_ne free]

/-- A mark on a node leaves alone what the node has. -/
theorem mark {f : Node → Node} (keep : ∀ n : Node, n.Keeps (f n))
    (kind : ∀ n, (f n).kind = n.kind) (children : ∀ n, (f n).children = n.children)
    (props : ∀ n, (f n).props = n.props) : Grows ∅ g (g.modify i f) where
  toExtends := .modify (keep _)
  kind _ := part_modify Node.kind kind _
  children _ _ := part_modify Node.children children _
  props _ _ _ := part_modify Node.props props _

end Grows

/-- No node has got a mark. -/
def NoNew (mark : Node → Bool) (g h : Graph) : Prop :=
  ∀ ⦃i⦄, i < h.size → mark (h.node i) = true → i < g.size ∧ mark (g.node i) = true

namespace NoNew

variable {mark : Node → Bool} {g h k : Graph} {i p : Nat}

theorem refl (mark : Node → Bool) (g : Graph) : NoNew mark g g := fun _ lt marked => ⟨lt, marked⟩

theorem trans (first : NoNew mark g h) (second : NoNew mark h k) : NoNew mark g k :=
  fun _ lt marked => first (second lt marked).1 (second lt marked).2

/-- No node is marked by one that is attached, when its mark is not read off its children. -/
theorem attach (keep : ∀ n cs, mark { n with children := cs } = mark n) {s : Seed}
    (new : mark (g.sprout (some p) s) = false) :
    NoNew mark g (g.attach p s) := fun i lt marked => by
  rw [part_attach mark keep] at marked
  split at marked
  · rw [new] at marked
    cases marked
  · next old =>
    rw [size_attach] at lt
    exact ⟨Nat.lt_of_le_of_ne (Nat.le_of_lt_succ lt) old, marked⟩

/-- A modification that leaves the mark marks nothing. -/
theorem modify {f : Node → Node} (keep : ∀ n, mark (f n) = mark n) :
    NoNew mark g (g.modify i f) := fun _ lt marked => by
  rw [part_modify mark keep] at marked
  rw [size_modify] at lt
  exact ⟨lt, marked⟩

end NoNew

end Graph

end RestGraph
