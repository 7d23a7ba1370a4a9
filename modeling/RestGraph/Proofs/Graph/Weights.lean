import RestGraph.Proofs.Document.Extent
import RestGraph.Proofs.Graph.Reached

/-!
# Weights

What is left to build below a node. Without another reference fragments shrink on the way down; a
reference that is taken above is not entered again.
-/

namespace RestGraph

/-- How far below a node of the kind one can come without another reference, when no fragment is
larger than the bound. A property is made from its source, before references are followed. -/
def Kind.weight (bound fragment source : Nat) : Kind → Nat
  | operation .. => 2 * bound + 5
  | param .. | body _ | response .. => 2 * bound + 4
  | reference _ => 2 * bound + 3
  | array | object _ | composed | union | property .array _ => 2 * fragment
  | property .object _ | property .enum _ | property .composed _ => 2 * source + 1
  | property .circular _ => 1
  | property (.scalar ..) _ | scalar .. | enum _ | circular _ => 0

namespace Kind

variable {bound fragment source : Nat} {k : Kind}

/-- What admits something has a weight. -/
theorem weight_pos {c : Kind} (admits : k.admits c = true) (full : 0 < fragment) :
    0 < k.weight bound fragment source := by
  unfold weight
  split <;> first | omega | cases admits

@[simp]
theorem weight_of_circular (tag : k.tag = .circular) : k.weight bound fragment source = 0 := by
  cases k <;> first | rfl | cases tag

theorem weight_of_shape {shape : Shape} (made : Build.kindOfShape? shape = some k) :
    k.weight bound fragment source ≤ 2 * fragment := by
  cases shape <;> cases made <;> first | exact Nat.zero_le _ | exact Nat.le_refl _

/-- No kind weighs more than its fragments allow. -/
theorem weight_le (small : fragment ≤ bound) (small' : source ≤ bound) :
    k.weight bound fragment source ≤ 2 * bound + 5 := by
  unfold weight
  split <;> omega

end Kind

/-- A branch is smaller than the composition that it stands in. -/
theorem size_lt_of_composition {d : Document} {n : Node} {j : Json} {place : Nat}
    (composition : n.kind.isComposition = true)
    (shaped : Build.kindOfShape? (Shape.ofSchema n.schema) = some n.kind)
    (here : d.fragmentAt? n place = some j) : j.size < n.schema.size := by
  have ofKind : ∀ {s : Shape} {k : Kind}, k.isComposition = true → Build.kindOfShape? s = some k →
      k = .composed ∧ s = .composed ∨ k = .union ∧ s = .union := by
    intro s k composition made
    cases s <;> cases made <;>
      first | exact .inl ⟨rfl, rfl⟩ | exact .inr ⟨rfl, rfl⟩ | cases composition
  obtain ⟨kind, shape⟩ | ⟨kind, shape⟩ := ofKind composition shaped
  · rw [Document.fragmentAt?, kind] at here
    exact size_lt_of_mem_branchesOf (show "allOf" ∈ ["allOf"] by decide)
      (Shape.hasBranches_of_composed shape) (by decide) (List.mem_of_getElem? here)
  · rw [Document.fragmentAt?, kind] at here
    rcases Shape.hasBranches_of_union shape with one | any
    · exact size_lt_of_mem_branchesOf (show "oneOf" ∈ ["oneOf", "anyOf"] by decide) one
        (by decide) (List.mem_of_getElem? here)
    · exact size_lt_of_mem_branchesOf (show "anyOf" ∈ ["oneOf", "anyOf"] by decide) any
        (by decide) (List.mem_of_getElem? here)

/-! ## References that are left -/

theorem countP_lt {α : Type} {p q : α → Bool} {l : List α} {a : α}
    (imp : ∀ x, p x = true → q x = true) (mem : a ∈ l) (old : q a = true) (new : p a = false) :
    l.countP p < l.countP q := by
  have le : ∀ l : List α, l.countP p ≤ l.countP q := fun l =>
    List.countP_mono_left fun x _ => imp x
  induction l with
  | nil => cases mem
  | cons x l ih =>
    rw [List.countP_cons, List.countP_cons]
    rcases List.mem_cons.mp mem with rfl | mem
    · have := le l
      simp only [old, new]
      exact Nat.lt_succ_of_le this
    · have := ih mem
      cases first : p x with
      | false => exact Nat.lt_of_lt_of_le this (Nat.le_add_right _ _)
      | true =>
        rw [imp x first]
        omega

namespace Node

variable {ptrs : List String} {bound : Nat} {n n' : Node}

/-- How many of the references are not taken above the node. -/
def unused (ptrs : List String) (n : Node) : Nat :=
  ptrs.countP fun p => (n.lineage.lookup (idOf (.reference p) p)).isNone

/-- A bound for the depth below a node that is no property. -/
def need (ptrs : List String) (bound : Nat) (n : Node) : Nat :=
  n.unused ptrs * (2 * bound + 6) + n.kind.weight bound n.schema.size 0

/-- No node needs more than the bounds allow. -/
theorem need_le (small : n.schema.size ≤ bound) :
    n.need ptrs bound ≤ ptrs.length * (2 * bound + 6) + (2 * bound + 5) :=
  Nat.add_le_add (Nat.mul_le_mul_right _ List.countP_le_length)
    (Kind.weight_le small (Nat.zero_le _))

theorem Keeps.need (keeps : n.Keeps n') (plain : n.isProperty = false) :
    n'.need ptrs bound = n.need ptrs bound := by
  rw [Node.need, Node.need, unused, unused, keeps.lineage, keeps.schema,
    keeps.kind.eq_of_not_isProperty plain]

end Node

namespace Graph

variable {g : Graph} {p : Nat} {s : Seed} {ptrs : List String} {bound : Nat}

/-- What is free in the lineage of a sprout was free in that of its parent. -/
theorem lookup_sprout {id : String}
    (free : ((g.sprout (some p) s).lineage.lookup id).isNone = true) :
    ((g.node p).lineage.lookup id).isNone = true := by
  have own : (g.sprout (some p) s).lineage =
    if s.kind.isProperty then (g.node p).lineage else (s.id, g.size) :: (g.node p).lineage := rfl
  rw [own] at free
  split at free
  · exact free
  · rw [List.lookup_cons] at free
    split at free
    · cases free
    · exact free

/-- A sprout has no more references left than its parent. -/
theorem unused_sprout_le : (g.sprout (some p) s).unused ptrs ≤ (g.node p).unused ptrs :=
  List.countP_mono_left fun _ _ => lookup_sprout

/-- A node that weighs less needs less. -/
theorem need_sprout_lt (lighter : s.kind.weight bound s.schema.size 0 <
      (g.node p).kind.weight bound (g.node p).schema.size 0) :
    (g.sprout (some p) s).need ptrs bound < (g.node p).need ptrs bound :=
  Nat.add_lt_add_of_le_of_lt (Nat.mul_le_mul_right _ unused_sprout_le) lighter

/-- A reference that is entered is left no more. -/
theorem need_reference_lt {pointer : String} (kind : s.kind = .reference pointer)
    (disc : s.discriminant = pointer) (known : pointer ∈ ptrs)
    (miss : g.lineageHit? p s.id = none) :
    (g.sprout (some p) s).need ptrs bound < (g.node p).need ptrs bound := by
  have id : s.id = idOf (.reference pointer) pointer := by rw [Seed.id, kind, disc]
  have fewer : (g.sprout (some p) s).unused ptrs < (g.node p).unused ptrs := by
    refine countP_lt (fun _ => lookup_sprout) known ?_ ?_
    · rw [← id]
      exact Option.isNone_iff_eq_none.mpr miss
    · have own : (g.sprout (some p) s).lineage = (s.id, g.size) :: (g.node p).lineage := by
        change (if s.kind.isProperty then _ else _) = _
        rw [kind]
        rfl
      rw [own, List.lookup_cons, id, beq_self_eq_true]
      rfl
  have weight : (g.sprout (some p) s).kind.weight bound (g.sprout (some p) s).schema.size 0 =
      2 * bound + 3 := by
    change s.kind.weight _ _ _ = _
    rw [kind]
    rfl
  obtain ⟨more, same⟩ := Nat.exists_eq_add_of_lt fewer
  rw [Node.need, Node.need, weight, same, Nat.add_mul, Nat.add_mul]
  omega

end Graph

end RestGraph
