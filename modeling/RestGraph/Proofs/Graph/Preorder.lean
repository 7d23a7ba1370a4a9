import Mathlib.Data.List.Nodup
import RestGraph.Proofs.Graph.Forest

/-!
# Preorder

A node comes before all below it, and what stands below a child comes before what stands below the
next. Each node below another is met once.
-/

namespace RestGraph

namespace Graph

/-- A node, then all below its children, one child after the other. -/
def preorder (g : Graph) (i : Nat) : List Nat :=
  i :: (g.node i).children.flatMap fun c => if _ : i < c ∧ c < g.size then g.preorder c else []
termination_by g.size - i
decreasing_by omega

variable {g : Graph} {a c i n : Nat}

/-- What holds of a node when it holds of its children holds of all nodes. -/
theorem Forest.down_induction {P : Nat → Prop} (forest : g.Forest)
    (step : ∀ i, (∀ c ∈ (g.node i).children, P c) → P i) (i : Nat) : P i := by
  induction room : g.size - i using Nat.strongRecOn generalizing i with
  | ind room ih =>
    refine step i fun c child => ih (g.size - c) ?_ c rfl
    have := forest.below child
    omega

/-- A node comes before its children, one after the other. -/
theorem Forest.preorder_eq (forest : g.Forest) (i : Nat) :
    g.preorder i = i :: (g.node i).children.flatMap g.preorder := by
  rw [preorder]
  exact congrArg (i :: ·) (List.flatMap_congr fun c child => dif_pos (forest.below child))

/-- The way from a child down is the way from its parent down, the parent left out. -/
theorem Forest.mem_ancestors_iff (forest : g.Forest) (child : c ∈ (g.node i).children)
    (above : c ∈ g.chain n) (on : a ∈ g.chain n) :
    i ∈ g.ancestors a ↔ a = c ∨ c ∈ g.ancestors a := by
  have split := forest.ancestors_of_child child
  have parent : i ∈ g.ancestors c := split ▸ List.mem_cons_self
  have apart : a ∈ g.ancestors c → i ∉ g.ancestors a := fun high low => by
    rw [split] at high
    rcases List.mem_cons.mp high with rfl | high
    · exact Nat.lt_irrefl _ (lt_of_mem_ancestors low)
    · exact Nat.lt_asymm (lt_of_mem_ancestors high) (lt_of_mem_ancestors low)
  constructor
  · intro low
    rcases mem_chain.mp on with rfl | high
    · exact (mem_chain.mp above).imp_left Eq.symm
    · rcases mem_chain.mp above with rfl | high'
      · exact absurd low (apart high)
      · rcases ancestors_linear high high' with same | high | low'
        · exact .inl same
        · exact absurd low (apart high)
        · exact .inr low'
  · rintro (rfl | low)
    · exact parent
    · exact mem_ancestors_trans parent low

@[simp] theorem Forest.mem_preorder (forest : g.Forest) :
    n ∈ g.preorder i ↔ n = i ∨ i ∈ g.ancestors n := by
  induction i using forest.down_induction with
  | step i ih =>
    rw [forest.preorder_eq, List.mem_cons, List.mem_flatMap]
    refine or_congr_right ⟨?_, fun below => ?_⟩
    · rintro ⟨c, child, mem⟩
      have parent : i ∈ g.ancestors c := forest.ancestors_of_child child ▸ List.mem_cons_self
      rcases (ih c child).mp mem with rfl | below
      · exact parent
      · exact mem_ancestors_trans parent below
    · obtain ⟨c, child, way⟩ := forest.exists_child_of_mem_ancestors below
      exact ⟨c, child, (ih c child).mpr (way.imp_left Eq.symm)⟩

theorem Forest.nodup_preorder (forest : g.Forest) (i : Nat) : (g.preorder i).Nodup := by
  induction i using forest.down_induction with
  | step i ih =>
    rw [forest.preorder_eq, List.nodup_cons]
    constructor
    · intro mem
      obtain ⟨c, child, mem⟩ := List.mem_flatMap.mp mem
      have lt := (forest.below child).1
      rcases forest.mem_preorder.mp mem with rfl | below
      · exact Nat.lt_irrefl _ lt
      · exact Nat.lt_asymm lt (lt_of_mem_ancestors below)
    · refine List.nodup_flatMap.mpr
        ⟨ih, (forest.sorted i).imp_of_mem fun {a b} child child' lt => ?_⟩
      intro n mem mem'
      -- a node below two children would have one of them above the other
      have above := mem_chain.mpr ((forest.mem_preorder.mp mem).imp_left Eq.symm)
      have above' := mem_chain.mpr ((forest.mem_preorder.mp mem').imp_left Eq.symm)
      have parent : i ∈ g.ancestors b := forest.ancestors_of_child child' ▸ List.mem_cons_self
      rcases (forest.mem_ancestors_iff child above above').mp parent with rfl | below
      · exact Nat.lt_irrefl _ lt
      · rw [forest.ancestors_of_child child'] at below
        rcases List.mem_cons.mp below with rfl | below
        · exact Nat.lt_irrefl _ (forest.below child).1
        · exact Nat.lt_asymm (lt_of_mem_ancestors below) (forest.below child).1

end Graph

end RestGraph
