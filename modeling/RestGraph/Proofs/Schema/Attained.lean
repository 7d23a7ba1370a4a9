import RestGraph.Proofs.Graph.Elements
import RestGraph.Proofs.Schema.Attempts
import RestGraph.Proofs.Schema.Session

/-!
# Attained runs

A client calls in any order, with any handles, and goes on after calls that fail. What it has
attained is a forest still: every node has its place in it once, the lineage of a node says which
ids are taken above it, and a leaf that closes a cycle leads back to where its id is taken.
-/

namespace RestGraph

variable {d : Document} {r s : Run}

inductive Call where
  | visit (node : Nat)
  | expand (node : Nat)
  | resolveTarget (node : Nat)
  | resolve (path : SelectionPath)
  | resolveLeaves (path : SelectionPath)
  /-- All that a wildcard selects below a node. -/
  | wildcard (node : Nat) (wildcard : Wildcard)
  | consolidate (node : Nat)
  | collect (selections : List String)
  | generate (collection : Collection) (settings : Settings)

namespace Call

variable (d : Document)

def step : Call → Build Unit
  | visit i => Build.visit d i
  | expand i => discard (Build.childrenOf d i)
  | resolveTarget i => discard (Build.resolveTarget d i)
  | resolve p => discard (Build.resolve d p)
  | resolveLeaves p => discard (Build.resolveLeaves d p)
  | wildcard i w => discard (Build.leavesBelow d i w)
  | consolidate i => discard (Build.consolidate d i)
  | collect selections => discard (Build.collect d selections)
  | generate c s => discard (Build.generate d c s)

/-- The run that a call leaves behind, also when it fails. -/
def after (r : Run) (c : Call) : Run := ((c.step d).run r).2

variable {d}

/-- A call other than the merging of a node merges compositions only. -/
theorem coming_of {S : Routine d} [S.toCourse.Frameless] (c : Call)
    (merges : ∀ i, c = .consolidate i → Coming S.toCourse id (Build.consolidate d i)) :
    Coming S.toCourse id (c.step d) := by
  cases c with
  | visit => exact Build.coming_visit
  | expand => exact Build.coming_childrenOf.discard
  | resolveTarget => exact Build.coming_resolveTarget.discard
  | resolve => exact Build.coming_resolve.discard
  | resolveLeaves => exact Build.coming_resolveLeaves.discard
  | wildcard => exact Build.coming_leavesBelow.discard
  | consolidate i => exact (merges i rfl).discard
  | collect => exact Build.coming_collect.discard
  | generate => exact Build.coming_generate.discard

theorem coming {S : OpenRegime d} (c : Call) : Coming S.toCourse id (c.step d) :=
  c.coming_of fun _ _ => Build.coming_consolidate

/-- A call leads on from where it holds. -/
theorem after_along {S : OpenRegime d} [S.toCourse.Enduring] (c : Call) {r : Run}
    (holds : S.holds r) : S.along r (c.after d r) := (c.coming holds).along holds

end Call

namespace Run

/-- The runs that calls lead to. -/
inductive Attained (d : Document) : Run → Prop
  | start : Attained d (.ofDocument d)
  | call {r : Run} (c : Call) (before : Attained d r) : Attained d (c.after d r)

/-- What every attained run keeps. -/
structure Firm (d : Document) (r : Run) : Prop where
  graph : r.graph.Firm d
  extent : r.extent = d.root.size

theorem Advances.firm (advances : Advances d r s) (firm : r.Firm d) : s.Firm d where
  graph := firm.graph.steps advances.steps
  extent := advances.extent.trans firm.extent

theorem Attained.firm (attained : r.Attained d) : r.Firm d := by
  induction attained with
  | start => exact ⟨Graph.ofDocument_firm d, rfl⟩
  | call c _ firm =>
    exact Advances.firm (c.after_along (S := Run.growing d) ⟨firm.graph.forest, firm.graph.fielded⟩)
      firm

end Run

/-- A forest whose lineages are exact and whose cycles are closed. -/
structure Graph.IsExact (g : Graph) : Prop where
  roots : ∀ i, i ∈ g.roots ↔ i < g.size ∧ (g.node i).parent = none
  /-- Every other node stands once among the children of its parent, and among no others. -/
  placed : ∀ i < g.size, i ∉ g.roots → ∃ p < i, (g.node i).parent = some p ∧
    ∀ q, (g.node q).children.count i = if q = p then 1 else 0
  inside : ∀ {i c}, c ∈ (g.node i).children → c < g.size
  lineage : ∀ i < g.size, ∀ id a, g.lineageHit? i id = some a ↔
    a ∈ i :: g.ancestors i ∧ (g.node a).isProperty = false ∧ g.idAt a = id
  apart : ∀ {i a b}, a ∈ i :: g.ancestors i → b ∈ i :: g.ancestors i →
    (g.node a).isProperty = false → (g.node b).isProperty = false → g.idAt a = g.idAt b → a = b
  closed : ∀ {i t}, (g.node i).kind = .circular t → (g.node i).children = [] ∧
    t ∈ g.ancestors i ∧ g.idAt t = (g.node i).discriminant

namespace Graph

variable {g : Graph} {i p : Nat}

/-- A child stands once below its parent, and below no other node. -/
theorem Forest.count_children (forest : g.Forest) (parent : (g.node i).parent = some p) (q : Nat) :
    (g.node q).children.count i = if q = p then 1 else 0 := by
  have nodup : ∀ q, (g.node q).children.Nodup := fun q => (forest.sorted q).imp Nat.ne_of_lt
  split
  · next same =>
    rw [same]
    exact List.count_eq_one_of_mem (nodup p) (forest.child parent)
  · next other =>
    refine List.count_eq_zero.mpr fun child => other ?_
    have above := forest.parent child
    rw [parent, Option.some.injEq] at above
    exact above.symm

end Graph

/-- Whatever calls were made, and whether they failed or not. -/
theorem Run.Attained.isExact (attained : r.Attained d) : r.graph.IsExact := by
  obtain ⟨forest, -, rooted, lineal, -⟩ := attained.firm.graph
  constructor
  · intro i
    exact ⟨fun root => ⟨rooted.inside i root, (rooted.top (rooted.inside i root)).mpr root⟩,
      fun ⟨inside, top⟩ => (rooted.top inside).mp top⟩
  · intro i inside other
    cases parent : (r.graph.node i).parent with
    | none => exact absurd ((rooted.top inside).mp parent) other
    | some p => exact ⟨p, forest.parent_lt parent, rfl, forest.count_children parent⟩
  · exact fun child => (forest.below child).2
  · exact fun i inside id a => lineal.lineageHit?_eq_some inside
  · intro i a b ha hb plain plain' same
    by_cases inside : i < r.graph.size
    · exact lineal.eq_of_id inside ha hb plain plain' same
    · rw [Graph.ancestors_of_root (by rw [Graph.node_of_size_le (Nat.le_of_not_lt inside)]; rfl),
        List.mem_singleton] at ha hb
      rw [ha, hb]
  · intro i t kind
    obtain ⟨above, -, id⟩ := lineal.closed kind
    exact ⟨forest.childless_of_circular (congrArg Kind.tag kind), above, id⟩

/-- A type whose nodes hold nodes of the same type. -/
def Document.chained : Document :=
  .answer (.refSchema "Node") [("Node", .objectSchema [("next", .refSchema "Node")])]

/-- A path that leads nowhere, then all leaves: the last of six nodes closes the cycle. -/
theorem chained_isExact : ∃ r : Run, r.Attained .chained ∧ r.graph.size = 6 ∧
    (r.graph.node 5).kind.tag = .circular ∧ r.graph.IsExact := by
  have failed : Run.Attained .chained _ :=
    .call (.resolve ⟨["get:/a", "res:404"], none⟩) .start
  have attained := failed.call (.wildcard 0 .deep)
  exact ⟨_, attained, by decide +kernel, by decide +kernel, attained.isExact⟩

end RestGraph
