import RestGraph.Proofs.Graph.Acting

/-!
# Tallies

How many nodes of a graph are of a sort. A node that is attached counts once, and a change that
keeps the sort of a node does not count.
-/

namespace RestGraph

namespace Graph

def tally (g : Graph) (q : Kind → Bool) : Nat :=
  (List.range g.size).countP fun i => q (g.node i).kind

variable {g h : Graph} {q : Kind → Bool} {p i : Nat} {x : Seed} {f : Node → Node}

theorem tally_congr (size : h.size = g.size)
    (same : ∀ i < g.size, q (h.node i).kind = q (g.node i).kind) : h.tally q = g.tally q := by
  unfold tally
  rw [size]
  refine List.countP_congr fun i mem => ?_
  rw [same i (List.mem_range.mp mem)]

/-- A node that is attached is counted if it is of the kind. -/
@[simp] theorem tally_attach : (g.attach p x).tally q = g.tally q + if q x.kind then 1 else 0 := by
  have old : (List.range g.size).countP (fun i => q ((g.attach p x).node i).kind) = g.tally q := by
    refine List.countP_congr fun i mem => ?_
    rw [kind_attach_of_lt (List.mem_range.mp mem)]
  have new : ((g.attach p x).node g.size).kind = x.kind := by simp
  rw [tally, size_attach, List.range_succ, List.countP_append, old, List.countP_singleton, new]

/-- A modification that leaves the kind leaves the count. -/
theorem tally_modify (keep : q (f (g.node i)).kind = q (g.node i).kind) :
    (g.modify i f).tally q = g.tally q := by
  refine tally_congr size_modify fun j inside => ?_
  by_cases same : j = i
  · subst same
    simp [inside, keep]
  · simp [same]

end Graph

end RestGraph
