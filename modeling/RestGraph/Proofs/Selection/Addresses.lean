import Mathlib.Data.List.Chain
import Mathlib.Data.List.Find
import RestGraph.Proofs.Graph.Siblings
import RestGraph.Proofs.Selection.PathText

/-!
# Addresses

The path text of a node names the ids on the way to it. To follow the text is to look for each id
among the children of the node before, which is visited first; so the text leads back to the node if
each node on the way is the first child with its id.
-/

namespace RestGraph

variable {d : Document} {g h : Graph} {r s s' : Run} {i n p c : Nat}

/-! ## Ways -/

namespace Graph

/-- The second node is the child that is found below the first under its own id. -/
def Finds (g : Graph) (p c : Nat) : Prop := g.findChild? p (abbreviate (g.idAt c)) = some c

/-- The path text of the node finds it from a root on. -/
structure Addressed (g : Graph) (i : Nat) : Prop where
  plain : ∀ a ∈ g.chain i, IsPlainId (g.idAt a)
  root : ∀ a ∈ (g.chain i).head?, g.findRoot? (abbreviate (g.idAt a)) = some a
  way : (g.chain i).IsChain g.Finds

theorem chain_ne_nil (g : Graph) (i : Nat) : g.chain i ≠ [] := by
  rw [chain, Ne, List.reverse_eq_nil_iff]
  exact List.cons_ne_nil _ _

@[simp] theorem getLast?_chain (g : Graph) (i : Nat) : (g.chain i).getLast? = some i := by
  rw [chain, List.getLast?_reverse, List.head?_cons]

def above (g : Graph) (i : Nat) : List Nat := (g.ancestors i).reverse

@[simp] theorem mem_above {a : Nat} : a ∈ g.above i ↔ a ∈ g.ancestors i := List.mem_reverse

/-- A chain without its node is what is above. -/
@[simp] theorem dropLast_chain (g : Graph) (i : Nat) : (g.chain i).dropLast = g.above i := by
  rw [chain, List.reverse_cons, List.dropLast_concat, above]

theorem Extends.above (step : g.Extends h) (lt : i < g.size) : h.above i = g.above i := by
  rw [Graph.above, Graph.above, step.ancestors lt]

theorem Sound.chain_of_child (sound : g.Sound) (child : c ∈ (g.node p).children) :
    g.chain c = g.chain p ++ [c] := by
  rw [chain, chain, sound.ancestors_of_child child, List.reverse_cons]

/-- A way is one of findings if each step of it is. -/
theorem Sound.isChain_chain (sound : g.Sound) {R : Nat → Nat → Prop}
    (each : ∀ a ∈ g.chain i, ∀ q, (g.node a).parent = some q → R q a) : (g.chain i).IsChain R := by
  induction i using Nat.strongRecOn with
  | ind i ih =>
    cases parent : (g.node i).parent with
    | none =>
      rw [chain, ancestors_of_root parent]
      exact .singleton i
    | some q =>
      have split := sound.chain_of_child (sound.child parent)
      have step := each i (by simp [chain]) q parent
      rw [split] at each ⊢
      refine (ih q (sound.parent_lt parent) fun a mem => each a (List.mem_append_left _ mem)).append
        (.singleton i) fun a last b first => ?_
      rw [getLast?_chain, Option.mem_some_iff] at last
      rw [List.head?_singleton, Option.mem_some_iff] at first
      subst last first
      exact step

theorem head?_chain (sound : g.Sound) (inside : i < g.size) {a : Nat}
    (first : a ∈ (g.chain i).head?) : a < g.size ∧ (g.node a).parent = none := by
  induction i using Nat.strongRecOn with
  | ind i ih =>
    cases parent : (g.node i).parent with
    | none =>
      rw [chain, ancestors_of_root parent] at first
      cases first
      exact ⟨inside, parent⟩
    | some q =>
      have lt := sound.parent_lt parent
      rw [sound.chain_of_child (sound.child parent),
        List.head?_append_of_ne_nil _ (chain_ne_nil g q)] at first
      exact ih q lt (lt.trans inside) first

/-- A child is found if no child before it has its id. -/
theorem Sound.finds (sound : g.Sound) (plain : IsPlainId (g.idAt c))
    (child : c ∈ (g.node p).children)
    (first : ∀ b ∈ (g.node p).children, g.idAt b = g.idAt c → c ≤ b) : g.Finds p c := by
  obtain ⟨before, after, split⟩ := List.append_of_mem child
  have sorted := sound.sorted p
  rw [split, List.pairwise_append] at sorted
  rw [Finds, findChild?, expand_abbreviate plain.full, List.find?_eq_some_iff_append]
  refine ⟨beq_self_eq_true _, before, after, split, fun b mem => ?_⟩
  rw [Bool.not_eq_true', beq_eq_false_iff_ne]
  intro same
  have le := first b (split ▸ List.mem_append_left _ mem) same
  exact absurd (sorted.2.2 b mem c List.mem_cons_self) (Nat.not_lt.mpr le)

/-- No child before the one that is found has its id. -/
theorem le_of_findChild? (sound : g.Sound) {segment : String}
    (found : g.findChild? p segment = some c) :
    ∀ b ∈ (g.node p).children, g.idAt b = g.idAt c → c ≤ b := by
  obtain ⟨own, before, after, split, others⟩ := List.find?_eq_some_iff_append.mp found
  have sorted := sound.sorted p
  rw [split, List.pairwise_append, List.pairwise_cons] at sorted
  intro b mem same
  rw [split] at mem
  rcases List.mem_append.mp mem with mem | mem
  · have other := others b mem
    rw [same, own] at other
    cases other
  · rcases List.mem_cons.mp mem with rfl | mem
    · exact Nat.le_refl b
    · exact (sorted.2.1.1 b mem).le

/-- Roots with different ids are found. -/
theorem findRoot?_of_mem (ids : (g.roots.map g.idAt).Nodup) (plain : IsPlainId (g.idAt i))
    (mem : i ∈ g.roots) : g.findRoot? (abbreviate (g.idAt i)) = some i := by
  rw [findRoot?, expand_abbreviate plain.full]
  cases found : g.roots.find? fun r => g.idAt r == g.idAt i with
  | none => exact absurd (List.find?_eq_none.mp found i mem) (by simp)
  | some j =>
    have same := List.find?_some found
    exact congrArg some
      (List.inj_on_of_nodup_map ids (List.mem_of_find?_eq_some found) mem (beq_iff_eq.mp same))

/-! ## Texts -/

/-- A path of plain ids is read as its segments. -/
theorem pathOf_segments (plain : ∀ a ∈ g.chain i, IsPlainId (g.idAt a)) :
    SelectionPath.ofText (g.pathOf i) =
      ⟨(g.chain i).map fun a => abbreviate (g.idAt a), none⟩ := by
  refine SelectionPath.ofText_joinPath fun segment mem => ?_
  obtain ⟨a, own, rfl⟩ := List.mem_map.mp mem
  exact (plain a own).segment (startsLabel_idOf _ _)

/-- Ways that start alike and find the same ids go to the same nodes. -/
theorem eq_of_isChain {ways ways' : List Nat} (way : (i :: ways).IsChain g.Finds)
    (way' : (i :: ways').IsChain g.Finds)
    (same : (ways.map fun a => abbreviate (g.idAt a)) = ways'.map fun a => abbreviate (g.idAt a)) :
    ways = ways' := by
  induction ways generalizing i ways' with
  | nil => exact (List.map_eq_nil_iff.mp same.symm).symm
  | cons c rest ih =>
    cases ways' with
    | nil => cases same
    | cons c' rest' =>
      rw [List.map_cons, List.map_cons, List.cons.injEq] at same
      rw [List.isChain_cons_cons] at way way'
      have found : g.findChild? i (abbreviate (g.idAt c)) = some c := way.1
      have found' : g.findChild? i (abbreviate (g.idAt c')) = some c' := way'.1
      rw [same.1, found', Option.some.injEq] at found
      subst found
      rw [ih way.2 way'.2 same.2]

/-- Nodes that are found under one text are the same. -/
theorem Addressed.eq_of_pathOf {m : Nat} (addressed : g.Addressed n) (other : g.Addressed m)
    (same : g.pathOf n = g.pathOf m) : n = m := by
  have texts := congrArg SelectionPath.ofText same
  rw [pathOf_segments addressed.plain, pathOf_segments other.plain, SelectionPath.mk.injEq] at texts
  have segments := texts.1
  have chains : g.chain n = g.chain m := by
    have root := addressed.root
    have root' := other.root
    have way := addressed.way
    have way' := other.way
    cases whole : g.chain n with
    | nil => exact absurd whole (chain_ne_nil g n)
    | cons a rest =>
      cases whole' : g.chain m with
      | nil => exact absurd whole' (chain_ne_nil g m)
      | cons a' rest' =>
        rw [whole] at root way segments
        rw [whole'] at root' way' segments
        rw [List.map_cons, List.map_cons, List.cons.injEq] at segments
        have found := root a rfl
        rw [segments.1, root' a' rfl, Option.some.injEq] at found
        subst found
        rw [eq_of_isChain way way' segments.2]
  have last := congrArg List.getLast? chains
  rwa [getLast?_chain, getLast?_chain, Option.some.injEq] at last

/-! ## Growth -/

theorem Grows.findChild? {busy : Set Nat} (step : g.Grows busy h) (sound : g.Sound)
    (lt : i < g.size) (free : i ∉ busy) (segment : String) :
    h.findChild? i segment = g.findChild? i segment := by
  rw [Graph.findChild?, Graph.findChild?, step.children lt free]
  exact List.find?_congr fun c mem => by rw [step.idAt (sound.below mem).2]

theorem Grows.findRoot? {busy : Set Nat} (step : g.Grows busy h)
    (inside : ∀ i ∈ g.roots, i < g.size) (segment : String) :
    h.findRoot? segment = g.findRoot? segment := by
  rw [Graph.findRoot?, Graph.findRoot?, step.roots]
  exact List.find?_congr fun c mem => by rw [step.idAt (inside c mem)]

/-! ## Nodes with texts of their own -/

/-- The ids on the way to the node can be spelled, and a parameter, reference or circular leaf on it
is the first child with its id. -/
structure Addressable (g : Graph) (n : Nat) : Prop where
  inside : n < g.size
  plain : ∀ a ∈ g.chain n, IsPlainId (g.idAt a)
  first : ∀ a ∈ g.chain n, (g.node a).kind.tag = .param ∨ (g.node a).kind.refers = true →
    ∀ p ∈ (g.node a).parent, ∀ b ∈ (g.node p).children, g.idAt b = g.idAt a → a ≤ b

instance : Decidable (g.Addressable n) :=
  decidable_of_iff (n < g.size ∧ (∀ a ∈ g.chain n, IsPlainId (g.idAt a)) ∧
    ∀ a ∈ g.chain n, (g.node a).kind.tag = .param ∨ (g.node a).kind.refers = true →
      ∀ p ∈ (g.node a).parent, ∀ b ∈ (g.node p).children, g.idAt b = g.idAt a → a ≤ b)
    ⟨fun ⟨inside, plain, first⟩ => ⟨inside, plain, first⟩,
      fun ⟨inside, plain, first⟩ => ⟨inside, plain, first⟩⟩

/-- Siblings that come later come after. -/
theorem Addressable.grow {busy : Set Nat} (addressable : g.Addressable n)
    (sound : g.Sound) (step : g.Grows busy h) (sound' : h.Sound) : h.Addressable n := by
  obtain ⟨inside, plain, first⟩ := addressable
  have chain : h.chain n = g.chain n := by rw [chain, chain, step.ancestors inside]
  have old : ∀ a ∈ g.chain n, a < g.size := fun a mem => by
    rcases Graph.mem_chain.mp mem with rfl | above
    · exact inside
    · exact (lt_of_mem_ancestors above).trans inside
  refine ⟨inside.trans_le step.size_le,
    fun a mem => ?_, fun a mem repeats p parent b sibling same => ?_⟩
  · rw [chain] at mem
    rw [step.idAt (old a mem)]
    exact plain a mem
  · rw [chain] at mem
    have here := old a mem
    rw [(step.keeps here).parent] at parent
    rw [step.kind here] at repeats
    rcases lt_or_ge b g.size with known | new
    · rw [step.idAt known, step.idAt here] at same
      have below := sound.child ((step.keeps known).parent.symm.trans (sound'.parent sibling))
      exact first a mem repeats p parent b below same
    · exact here.le.trans new

/-- A node that was there had its text. -/
theorem Addressable.of_grow {busy : Set Nat} (addressable : h.Addressable n) (step : g.Grows busy h)
    (sound : g.Sound) (inside : n < g.size) : g.Addressable n := by
  have chain : h.chain n = g.chain n := by rw [chain, chain, step.ancestors inside]
  have old : ∀ a ∈ g.chain n, a < g.size := fun a high => by
    rcases mem_chain.mp high with rfl | high
    · exact inside
    · exact (lt_of_mem_ancestors high).trans inside
  refine ⟨inside, fun a high => ?_, fun a high marked p parent b child same => ?_⟩
  · rw [← step.idAt (old a high)]
    exact addressable.plain a (chain ▸ high)
  · have keeps := step.keeps (old a high)
    have lt : p < g.size := lt_size_of_child child
    obtain ⟨more, grown⟩ := (step.keeps lt).children
    refine addressable.first a (chain ▸ high) ?_ p (keeps.parent.trans parent) b
      (grown ▸ List.mem_append_left _ child) ?_
    · rwa [step.kind (old a high)]
    · rwa [step.idAt (sound.below child).2, step.idAt (old a high)]

/-- A root. -/
theorem Addressable.top (inside : i < g.size) (parent : (g.node i).parent = none)
    (plain : IsPlainId (g.idAt i)) : g.Addressable i := by
  have alone : g.chain i = [i] := by rw [chain, ancestors_of_root parent, List.reverse_singleton]
  refine ⟨inside, fun a mem => ?_, fun a mem _ p above => ?_⟩
  · rw [alone, List.mem_singleton] at mem
    exact mem ▸ plain
  · rw [alone, List.mem_singleton] at mem
    rw [mem, parent] at above
    cases above

/-- The first child with its id. -/
theorem Addressable.child (addressable : g.Addressable i) (sound : g.Sound)
    (child : c ∈ (g.node i).children) (plain : IsPlainId (g.idAt c))
    (first : (g.node c).kind.tag = .param ∨ (g.node c).kind.refers = true →
      ∀ b ∈ (g.node i).children, g.idAt b = g.idAt c → c ≤ b) : g.Addressable c := by
  have chain := sound.chain_of_child child
  refine ⟨(sound.below child).2, fun a mem => ?_, fun a mem repeats p above => ?_⟩
  · rw [chain] at mem
    rcases List.mem_append.mp mem with mem | mem
    · exact addressable.plain a mem
    · exact List.mem_singleton.mp mem ▸ plain
  · rw [chain] at mem
    rcases List.mem_append.mp mem with mem | mem
    · exact addressable.first a mem repeats p above
    · obtain rfl := List.mem_singleton.mp mem
      rw [sound.parent child, Option.mem_some_iff] at above
      exact above ▸ first repeats

/-- What is addressable is addressed in every graph that moves lead to. -/
theorem Addressable.addressed (addressable : g.Addressable n) (moves : Moves d (ofDocument d) g)
    (keys : d.HasDistinctKeys) : g.Addressed n := by
  obtain ⟨inside, plain, first⟩ := addressable
  have sound := (ofDocument_sound d).moves moves
  have derived := (ofDocument_derived d).moves (ofDocument_sound d) moves
  refine ⟨plain, fun a top => ?_, sound.isChain_chain fun a mem p parent => ?_⟩
  · obtain ⟨inside, parent⟩ := head?_chain sound inside top
    have root := (((ofDocument_rooted d).moves moves).top inside).mp parent
    exact findRoot?_of_mem (nodup_rootIds keys moves) (plain a (List.mem_of_head? top)) root
  · have child := sound.child parent
    refine sound.finds (plain a mem) child fun b sibling same => ?_
    by_cases repeats : (g.node a).kind.tag = .param ∨ (g.node a).kind.refers = true
    · exact first a mem repeats p parent b sibling same
    · rw [not_or, Bool.not_eq_true] at repeats
      exact (derived.eq_of_id sound keys child sibling same.symm repeats.1 (.inr repeats.2)).le

end Graph

/-! ## Following a text -/

namespace Build

/-- To visit nodes again is to do nothing. -/
theorem forM_of_visited {nodes : List Nat}
    (visited : ∀ i ∈ nodes, (r.graph.node i).visited = true) :
    Ends (nodes.forM (visit d)) r ⟨⟩ r := by
  induction nodes with
  | nil => exact Ends.forM_nil_iff.mpr rfl
  | cons i rest ih =>
    exact Ends.forM_cons_iff.mpr ⟨r, ends_visit_of_visited (visited i List.mem_cons_self),
      ih fun j mem => visited j (List.mem_cons_of_mem _ mem)⟩

theorem forM_visits {nodes : List Nat} {u : PUnit}
    (visited : Ends (nodes.forM (visit d)) s u s') (sound : s.graph.Sound) : s.Visits d s' := by
  refine Ends.forM_keeps (I := s.Visits d) (fun _ visits step => ?_) (.refl d s) visited
  exact visits.trans (visit_steps step (visits.sound sound)).1

/-- To follow a way is to visit the nodes on it but the last. -/
theorem ends_descend (path : SelectionPath) (reached : List String) {below : List Nat} {u : PUnit}
    (visited : Ends ((i :: below).dropLast.forM (visit d)) s u s') (sound : s.graph.Sound)
    (inside : i < s.graph.size) (way : (i :: below).IsChain s'.graph.Finds) :
    Ends (descend d path reached i (below.map fun a => abbreviate (s'.graph.idAt a))) s
      ((i :: below).getLast (List.cons_ne_nil _ _)) s' := by
  induction below generalizing s i reached with
  | nil =>
    obtain rfl := Ends.forM_nil_iff.mp visited
    exact Ends.pure_iff.mpr ⟨rfl, rfl⟩
  | cons c rest ih =>
    rw [List.dropLast_cons_cons, Ends.forM_cons_iff] at visited
    obtain ⟨v, first, visited⟩ := visited
    obtain ⟨visits, done⟩ := visit_steps first sound
    have sound' := visits.sound sound
    have inside' := inside.trans_le visits.grows.size_le
    rw [List.isChain_cons_cons] at way
    have found : v.graph.findChild? i (abbreviate (s'.graph.idAt c)) = some c := by
      rw [← (forM_visits visited sound').grows.findChild? sound' inside'
        (Graph.notMem_unvisited.mpr done)]
      exact way.1
    rw [List.map_cons, descend]
    refine Ends.bind_iff.mpr ⟨_, v, first, Ends.bind_iff.mpr ⟨_, v, ends_graph.mpr ⟨rfl, rfl⟩, ?_⟩⟩
    rw [found]
    exact ih _ visited sound' (sound'.below (List.mem_of_find?_eq_some found)).2 way.2

/-- The text of a node leads to it, as soon as the nodes above it can be visited. -/
theorem ends_resolve_pathOf {u : PUnit}
    (visited : Ends ((s'.graph.above n).forM (visit d)) s u s') (sound : s.graph.Sound)
    (roots : ∀ i ∈ s.graph.roots, i < s.graph.size) (addressed : s'.graph.Addressed n) :
    Ends (resolve d (.ofText (s'.graph.pathOf n))) s n s' := by
  rw [← Graph.dropLast_chain] at visited
  have visits := forM_visits visited sound
  have last := s'.graph.getLast?_chain n
  obtain ⟨plain, root, way⟩ := addressed
  rw [Graph.pathOf_segments plain, resolve]
  refine Ends.bind_iff.mpr ⟨_, s, ends_graph.mpr ⟨rfl, rfl⟩, ?_⟩
  cases whole : s'.graph.chain n with
  | nil => exact absurd whole (s'.graph.chain_ne_nil n)
  | cons a rest =>
    rw [whole] at visited root way last
    have found := root a rfl
    rw [visits.grows.findRoot? roots] at found
    rw [List.getLast?_eq_some_getLast (List.cons_ne_nil _ _), Option.some.injEq] at last
    have steps := ends_descend ⟨(a :: rest).map fun a => abbreviate (s'.graph.idAt a), none⟩
      [abbreviate (s'.graph.idAt a)] visited sound (roots a (List.mem_of_find?_eq_some found)) way
    rw [last] at steps
    simp only [List.map_cons, found]
    exact steps

end Build

end RestGraph
