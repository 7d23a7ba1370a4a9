import RestGraph.Proofs.Graph.Reached
import RestGraph.Proofs.Selection.Addresses

/-!
# Walks

To search below a node for leaves is to visit, leaf by leaf, the nodes above each leaf: the search
visits nothing else, since below every node that it goes on into there is a leaf.
-/

namespace RestGraph

variable {d : Document} {g h : Graph} {r s t : Run} {i c l a : Nat}

/-! ## Ways down to leaves -/

/-- Arguments stand below operations only. -/
theorem Build.entersChild_of_admits {k : Kind} {n : Node} (other : k.tag ≠ .operation)
    (admits : k.admits n.kind = true) : entersChild .deep n = true := by
  unfold entersChild
  cases kind : n.kind with
  | param | body =>
    rw [kind] at admits
    cases k with
    | operation => exact absurd rfl other
    | property shape => cases shape <;> cases admits
    | _ => cases admits
  | _ => rfl

/-- Below a node that was visited and is no leaf the search goes on. -/
theorem Run.Reached.exists_entered (reached : r.Reached d) (inside : i < r.graph.size)
    (visited : (r.graph.node i).visited = true) (open_ : (r.graph.node i).isLeaf = false) :
    ∃ c ∈ (r.graph.node i).children, Build.entersChild .deep (r.graph.node c) = true := by
  by_cases tag : (r.graph.node i).kind.tag = .operation
  · obtain ⟨c, child, response⟩ := (reached.served i tag visited).2
    refine ⟨c, child, ?_⟩
    unfold Build.entersChild
    cases kind : (r.graph.node c).kind <;> rw [kind] at response <;> cases response
  · obtain ⟨c, child⟩ := List.exists_mem_of_ne_nil _ (reached.children_ne_nil inside visited open_)
    exact ⟨c, child, Build.entersChild_of_admits tag (reached.sound.admits child)⟩

/-- The node `l` is reached from another without passing a leaf or an argument. -/
inductive Graph.Enters (g : Graph) (l : Nat) : Nat → Prop
  | here : Enters g l l
  | down {i c : Nat} (open_ : (g.node i).isLeaf = false) (child : c ∈ (g.node i).children)
      (entered : Build.entersChild .deep (g.node c) = true) (rest : Enters g l c) : Enters g l i

namespace Graph

theorem Enters.inside (enters : g.Enters l i) (sound : g.Sound) (inside : i < g.size) :
    l < g.size := by
  induction enters with
  | here => exact inside
  | down _ child _ _ ih => exact ih (sound.below child).2

/-- What is entered from a node is below it. -/
theorem Enters.above (enters : g.Enters l i) (sound : g.Sound) : l = i ∨ i ∈ g.ancestors l := by
  induction enters with
  | here => exact .inl rfl
  | @down i c _ child _ _ ih =>
    have above := sound.ancestors_of_child child
    rcases ih with rfl | below
    · exact .inr (above ▸ List.mem_cons_self)
    · exact .inr (mem_ancestors_trans (above ▸ List.mem_cons_self) below)

theorem Enters.grow {busy : Set Nat} (enters : g.Enters l i) (step : g.Grows busy h)
    (sound : g.Sound) : h.Enters l i := by
  induction enters with
  | here => exact .here
  | @down i c open_ child entered _ ih =>
    have kind := step.kind (lt_size_of_child child)
    have kind' := step.kind (sound.below child).2
    refine .down ?_ ((step.keeps (lt_size_of_child child)).children.subset child) ?_ ih
    · rwa [Node.isLeaf, kind]
    · rw [Build.entersChild, Node.isLeaf] at entered ⊢
      rwa [kind']

/-- On the way there is no leaf before the last node. -/
theorem Enters.open_of_mem (enters : g.Enters l i) (sound : g.Sound)
    (below : a = i ∨ i ∈ g.ancestors a) (mem : a ∈ g.ancestors l) : (g.node a).isLeaf = false := by
  induction enters with
  | here =>
    have lt := lt_of_mem_ancestors mem
    rcases below with rfl | below
    · exact absurd lt (Nat.lt_irrefl _)
    · exact absurd (lt_of_mem_ancestors below) (Nat.lt_asymm lt)
  | @down i c open_ child _ rest ih =>
    rcases below with rfl | below
    · exact open_
    · refine ih ?_
      have above := sound.ancestors_of_child child
      -- a proper ancestor of the child is the node itself or stands above it
      have apart : a ∉ g.ancestors c := fun mem => by
        rw [above] at mem
        rcases List.mem_cons.mp mem with rfl | mem
        · exact absurd (lt_of_mem_ancestors below) (Nat.lt_irrefl _)
        · exact absurd (lt_of_mem_ancestors below) (Nat.lt_asymm (lt_of_mem_ancestors mem))
      rcases rest.above sound with rfl | high
      · exact absurd mem apart
      · rcases ancestors_linear mem high with rfl | mem | high
        · exact .inl rfl
        · exact absurd mem apart
        · exact .inr high

/-- Below a node with a text of its own, each that is reached has one. -/
theorem Addressable.enters (addressable : g.Addressable i) (enters : g.Enters l i)
    (sound : g.Sound) (derived : g.Derived d) (keys : d.HasDistinctKeys) (refs : d.RepeatsNoBranch)
    (plain : ∀ a < g.size, IsPlainId (g.idAt a)) : g.Addressable l := by
  induction enters with
  | here => exact addressable
  | @down i c _ child entered _ ih =>
    refine ih (addressable.child sound child (plain c (sound.below child).2)
      fun _ b sibling same => ?_)
    refine (derived.eq_of_id sound keys child sibling same.symm (fun param => ?_) (.inl refs)).le
    rw [Build.entersChild] at entered
    cases kind : (g.node c).kind <;> rw [kind] at param entered <;> cases param
    cases entered

/-- The way down to a node starts as the way down to one above it. -/
theorem above_eq_append (mem : i ∈ g.ancestors l) : ∃ rest, g.above l = g.chain i ++ rest := by
  obtain ⟨between, split, -⟩ := ancestors_split mem
  exact ⟨between.reverse, by rw [above, split, List.reverse_append, chain]⟩

end Graph

namespace Build

/-- To visit nodes that another run of visits went to first is to do all of that run. -/
theorem forM_absorb {front rest : List Nat} (first : Ends (front.forM (visit d)) r ⟨⟩ t)
    (visited : ∀ a ∈ front, (t.graph.node a).visited = true)
    (later : Ends ((front ++ rest).forM (visit d)) t ⟨⟩ s) :
    Ends ((front ++ rest).forM (visit d)) r ⟨⟩ s := by
  obtain ⟨u, again, last⟩ := Ends.forM_append_iff.mp later
  obtain ⟨-, rfl⟩ := again.unique (forM_of_visited visited)
  exact Ends.forM_append_iff.mpr ⟨_, first, last⟩

/-- A node is visited after the nodes above it. -/
theorem forM_chain {u : Unit} (step : Ends (visit d i) r u t) (sound : r.graph.Sound)
    (inside : i < r.graph.size)
    (above : ∀ a ∈ r.graph.ancestors i, (r.graph.node a).visited = true) :
    Ends ((t.graph.chain i).forM (visit d)) r ⟨⟩ t ∧
      ∀ a ∈ t.graph.chain i, (t.graph.node a).visited = true := by
  have visit := visit_at step sound
  have same := visit.grows.ancestors inside
  constructor
  · rw [Graph.chain, List.reverse_cons, same]
    refine Ends.forM_append_iff.mpr
      ⟨r, ?_, Ends.forM_cons_iff.mpr ⟨t, step, Ends.forM_nil_iff.mpr rfl⟩⟩
    exact forM_of_visited fun a mem => above a (List.mem_reverse.mp mem)
  · intro a mem
    rcases Graph.mem_chain.mp mem with rfl | high
    · exact visit.done
    · rw [same] at high
      exact (visit.grows.keeps ((Graph.lt_of_mem_ancestors high).trans inside)).visited
        (above a high)

/-- A run of visits to what stands below a node starts with the visit of the node. -/
theorem forM_above {u : Unit} {rest : List Nat} (step : Ends (visit d i) r u t)
    (sound : r.graph.Sound) (inside : i < r.graph.size)
    (above : ∀ a ∈ r.graph.ancestors i, (r.graph.node a).visited = true)
    (below : i ∈ s.graph.ancestors l) (grows : t.graph.Extends s.graph)
    (later : Ends ((s.graph.above l ++ rest).forM (Build.visit d)) t ⟨⟩ s) :
    Ends ((s.graph.above l ++ rest).forM (Build.visit d)) r ⟨⟩ s := by
  obtain ⟨front, visited⟩ := forM_chain step sound inside above
  obtain ⟨between, split⟩ := Graph.above_eq_append below
  have same : s.graph.chain i = t.graph.chain i := by
    rw [Graph.chain, Graph.chain,
      grows.ancestors (inside.trans_le (visit_at step sound).grows.size_le)]
  rw [split, same, List.append_assoc] at later ⊢
  exact forM_absorb front visited later

/-- The visits to nodes above leaves, leaf by leaf. -/
structure Walks (d : Document) (r : Run) (leaves : List Nat) (s : Run) : Prop where
  leaf : ∀ l ∈ leaves, (s.graph.node l).isLeaf = true
  above : ∀ l ∈ leaves, ∀ a ∈ s.graph.ancestors l, (s.graph.node a).visited = true
  visits : Ends ((leaves.flatMap s.graph.above).forM (visit d)) r ⟨⟩ s

theorem isLeaf_inside (leaf : (g.node l).isLeaf = true) : l < g.size :=
  Graph.lt_size_of_ne fun nowhere => by
    rw [nowhere] at leaf
    cases leaf

namespace Walks

variable {leaves more : List Nat}

theorem nil (d : Document) (r : Run) : Walks d r [] r :=
  ⟨fun _ none => absurd none List.not_mem_nil, fun _ none => absurd none List.not_mem_nil,
    Ends.forM_nil_iff.mpr rfl⟩

/-- The nodes above a node have been visited. -/
theorem single (leaf : (r.graph.node l).isLeaf = true)
    (above : ∀ a ∈ r.graph.ancestors l, (r.graph.node a).visited = true) : Walks d r [l] r := by
  refine ⟨fun _ mem => List.mem_singleton.mp mem ▸ leaf,
    fun _ mem => List.mem_singleton.mp mem ▸ above, ?_⟩
  rw [List.flatMap_singleton]
  exact forM_of_visited fun a mem => above a (Graph.mem_above.mp mem)

theorem steps (walks : Walks d r leaves s) (sound : r.graph.Sound) : r.Visits d s :=
  forM_visits walks.visits sound

theorem append (first : Walks d r leaves t) (second : Walks d t more s) (sound : r.graph.Sound) :
    Walks d r (leaves ++ more) s := by
  have grows := (second.steps ((first.steps sound).sound sound)).grows
  have inside : ∀ l ∈ leaves, l < t.graph.size := fun l mem => isLeaf_inside (first.leaf l mem)
  refine ⟨fun l mem => ?_, fun l mem a high => ?_, ?_⟩
  · rcases List.mem_append.mp mem with mem | mem
    · rw [Node.isLeaf, grows.kind (inside l mem)]
      exact first.leaf l mem
    · exact second.leaf l mem
  · rcases List.mem_append.mp mem with mem | mem
    · rw [grows.ancestors (inside l mem)] at high
      exact (grows.keeps ((Graph.lt_of_mem_ancestors high).trans (inside l mem))).visited
        (first.above l mem a high)
    · exact second.above l mem a high
  · rw [List.flatMap_append]
    refine Ends.forM_append_iff.mpr ⟨t, ?_, second.visits⟩
    have same : leaves.flatMap s.graph.above = leaves.flatMap t.graph.above :=
      List.flatMap_congr fun l mem => grows.above (inside l mem)
    exact same ▸ first.visits

end Walks

/-- A way whose nodes are visited as far as the last is in the graph. -/
theorem forM_way {below : List Nat} (visited : Ends ((i :: below).dropLast.forM (visit d)) r ⟨⟩ t)
    (sound : r.graph.Sound) (inside : i < r.graph.size) (later : t.Visits d s)
    (way : (i :: below).IsChain fun p c => (s.graph.node c).parent = some p) :
    (∀ a ∈ i :: below, a < t.graph.size) ∧
      ∀ a ∈ (i :: below).dropLast, (t.graph.node a).visited = true := by
  induction below generalizing i r with
  | nil =>
    obtain rfl := Ends.forM_nil_iff.mp visited
    exact ⟨fun a mem => List.mem_singleton.mp mem ▸ inside, fun _ none =>
      absurd none List.not_mem_nil⟩
  | cons c more ih =>
    obtain ⟨u, first, rest⟩ := Ends.forM_cons_iff.mp visited
    have visit := visit_at first sound
    have sound' := visit.sound sound
    have steps := forM_visits rest sound'
    have all := steps.trans later
    have lt := inside.trans_le visit.grows.size_le
    have free := Graph.notMem_unvisited.mpr visit.done
    have child : c ∈ (u.graph.node i).children := by
      rw [← all.grows.children lt free]
      exact (all.sound sound').child (List.isChain_cons_cons.mp way).1
    obtain ⟨inside', done⟩ :=
      ih rest sound' (sound'.below child).2 (List.isChain_cons_cons.mp way).2
    refine ⟨fun a mem => ?_, fun a mem => ?_⟩
    · rcases List.mem_cons.mp mem with rfl | mem
      · exact lt.trans_le steps.grows.size_le
      · exact inside' a mem
    · rcases List.mem_cons.mp mem with rfl | mem
      · exact (steps.grows.keeps lt).visited visit.done
      · exact done a mem

/-- The visits for one leaf come before those for the others. -/
theorem Walks.uncons {leaves : List Nat} (walks : Walks d r (l :: leaves) s)
    (reached : r.Reached d) : ∃ t, Walks d r [l] t ∧ Walks d t leaves s ∧ l < t.graph.size := by
  have visits := walks.visits
  rw [List.flatMap_cons] at visits
  obtain ⟨t, first, rest⟩ := Ends.forM_append_iff.mp visits
  have steps := forM_visits first reached.sound
  have reached' := reached.visits steps
  have later := forM_visits rest reached'.sound
  have sound := later.sound reached'.sound
  have leaf := walks.leaf l List.mem_cons_self
  obtain ⟨top, below, chain⟩ := List.exists_cons_of_ne_nil (s.graph.chain_ne_nil l)
  have start := Graph.head?_chain sound (isLeaf_inside leaf) (a := top) (by rw [chain]; rfl)
  have inside : top < r.graph.size := reached.rooted.inside top <| by
    rw [← (steps.trans later).grows.roots]
    exact ((reached'.visits later).rooted.top start.1).mp start.2
  rw [← Graph.dropLast_chain, chain] at first
  have way := sound.isChain_chain (i := l) (R := fun p c => (s.graph.node c).parent = some p)
    fun _ _ _ => id
  rw [chain] at way
  obtain ⟨inside, done⟩ := forM_way first reached.sound inside later way
  rw [← chain] at inside done
  have lt : l < t.graph.size := inside l (Graph.mem_chain.mpr (.inl rfl))
  rw [Graph.dropLast_chain] at done
  rw [← chain, Graph.dropLast_chain] at first
  rw [later.grows.above lt] at first done
  refine ⟨t, ⟨fun l' mem => ?_, fun l' mem a high => ?_, ?_⟩,
    ⟨fun l' mem => ?_, fun l' mem => ?_, rest⟩, lt⟩
  · obtain rfl := List.mem_singleton.mp mem
    rw [Node.isLeaf, ← later.grows.kind lt]
    exact leaf
  · obtain rfl := List.mem_singleton.mp mem
    exact done a (Graph.mem_above.mpr high)
  · rwa [List.flatMap_cons, List.flatMap_nil, List.append_nil]
  · exact walks.leaf l' (List.mem_cons_of_mem _ mem)
  · exact walks.above l' (List.mem_cons_of_mem _ mem)

/-- The search below some children of a node. -/
theorem collectFrom_walks {below : Nat → Build (List Nat)} {children leaves : List Nat}
    (walks : ∀ {c leaves r s}, Ends (below c) r leaves s → r.Reached d → c < r.graph.size →
      (∀ a ∈ r.graph.ancestors c, (r.graph.node a).visited = true) →
      leaves ≠ [] ∧ (∀ l ∈ leaves, s.graph.Enters l c) ∧ Walks d r leaves s)
    (h : Ends (leavesWithin.collectFrom .deep below children) r leaves s) (reached : r.Reached d)
    (inside : ∀ c ∈ children, c < r.graph.size)
    (above : ∀ c ∈ children, ∀ a ∈ r.graph.ancestors c, (r.graph.node a).visited = true) :
    ((∃ c ∈ children, entersChild .deep (r.graph.node c) = true) → leaves ≠ []) ∧
      (∀ l ∈ leaves, ∃ c ∈ children, entersChild .deep (r.graph.node c) = true ∧
        s.graph.Enters l c) ∧ Walks d r leaves s := by
  induction children generalizing leaves r with
  | nil =>
    obtain ⟨rfl, rfl⟩ := collectFrom_nil h
    refine ⟨?_, fun _ none => absurd none List.not_mem_nil, .nil d r⟩
    rintro ⟨_, none, _⟩
    cases none
  | cons c rest ih =>
    obtain ⟨entered, found, more, t, rfl, h, h'⟩ | ⟨other, h⟩ := enters_or_passes h
    · obtain ⟨some, enters, first⟩ := walks h reached (inside c List.mem_cons_self)
        (above c List.mem_cons_self)
      have visits := first.steps reached.sound
      have reached' := reached.visits visits
      have kept : ∀ c ∈ rest, (t.graph.node c).kind = (r.graph.node c).kind := fun c mem =>
        visits.grows.kind (inside c (List.mem_cons_of_mem _ mem))
      obtain ⟨-, enters', second⟩ := ih h' reached'
        (fun c mem => (inside c (List.mem_cons_of_mem _ mem)).trans_le visits.grows.size_le)
        fun c mem a high => by
          have old := inside c (List.mem_cons_of_mem _ mem)
          rw [visits.grows.ancestors old] at high
          exact (visits.grows.keeps ((Graph.lt_of_mem_ancestors high).trans old)).visited
            (above c (List.mem_cons_of_mem _ mem) a high)
      refine ⟨fun _ => List.append_ne_nil_of_left_ne_nil some _, fun l mem => ?_,
        first.append second reached.sound⟩
      rcases List.mem_append.mp mem with mem | mem
      · exact ⟨c, List.mem_cons_self, entered,
          (enters l mem).grow (second.steps reached'.sound).grows reached'.sound⟩
      · obtain ⟨x, mem, entered, way⟩ := enters' l mem
        rw [entersChild, Node.isLeaf, kept x mem] at entered
        exact ⟨x, List.mem_cons_of_mem _ mem, entered, way⟩
    · obtain ⟨some, enters, walks⟩ :=
        ih h reached (fun c mem => inside c (List.mem_cons_of_mem _ mem))
        fun c mem => above c (List.mem_cons_of_mem _ mem)
      refine ⟨?_, fun l mem => ?_, walks⟩
      · rintro ⟨x, mem, entered⟩
        rcases List.mem_cons.mp mem with rfl | mem
        · exact absurd entered (Bool.eq_false_iff.mp other)
        · exact some ⟨x, mem, entered⟩
      · obtain ⟨x, mem, way⟩ := enters l mem
        exact ⟨x, List.mem_cons_of_mem _ mem, way⟩

theorem leavesWithin_walks {depth : Nat} {leaves : List Nat}
    (h : Ends (leavesWithin d .deep depth i) r leaves s) (reached : r.Reached d)
    (inside : i < r.graph.size)
    (above : ∀ a ∈ r.graph.ancestors i, (r.graph.node a).visited = true) :
    leaves ≠ [] ∧ (∀ l ∈ leaves, s.graph.Enters l i) ∧ Walks d r leaves s := by
  induction depth generalizing i leaves r s with
  | zero => exact absurd h (by rw [leavesWithin, Ends.throw_iff]; exact id)
  | succ depth ih =>
    obtain ⟨leaf, rfl, rfl⟩ | ⟨inner, _, t, visited, h'⟩ := leaf_or_searched h
    · exact ⟨List.cons_ne_nil _ _, fun l mem => List.mem_singleton.mp mem ▸ .here,
        .single leaf above⟩
    · have visit := visit_at visited reached.sound
      have reached' := reached.visits visit.toVisits
      have sound' := reached'.sound
      have old := inside.trans_le visit.grows.size_le
      have chain := (forM_chain visited reached.sound inside above).2
      have open' : (t.graph.node i).isLeaf = false := by
        rwa [Node.isLeaf, visit.grows.kind inside]
      obtain ⟨some, enters, walks⟩ := collectFrom_walks (fun h reached inside above =>
        ih h reached inside above) h' reached' (fun c child => (sound'.below child).2)
        fun c child a high => chain a (by
          rw [sound'.ancestors_of_child child] at high
          exact Graph.mem_chain.mpr (List.mem_cons.mp high))
      have some := some (reached'.exists_entered old visit.done open')
      have grows := (walks.steps sound').grows
      have down : ∀ l ∈ leaves, s.graph.Enters l i := fun l mem => by
        obtain ⟨c, child, entered, way⟩ := enters l mem
        refine .down ?_ ((grows.keeps old).children.subset child) ?_ way
        · rwa [Node.isLeaf, grows.kind old]
        · rw [entersChild, Node.isLeaf] at entered ⊢
          rwa [grows.kind (sound'.below child).2]
      refine ⟨some, down, walks.leaf, walks.above, ?_⟩
      -- the first leaf stands below the node, so the node is visited on the way to it
      obtain ⟨l, rest, rfl⟩ := List.exists_cons_of_ne_nil some
      have below : i ∈ s.graph.ancestors l :=
        ((down l List.mem_cons_self).above (walks.steps sound' |>.sound sound')).resolve_left (by
          rintro rfl
          have leaf := walks.leaf l List.mem_cons_self
          rw [Node.isLeaf, grows.kind old] at leaf
          exact absurd leaf (Bool.eq_false_iff.mp open'))
      have later := walks.visits
      rw [List.flatMap_cons] at later ⊢
      exact forM_above visited reached.sound inside above below grows.toExtends later

/-! ## Following paths -/

theorem descend_walks {path : SelectionPath} {behind segments : List String} {target : Nat}
    (h : Ends (descend d path behind i segments) r target s) (reached : r.Reached d)
    (addressable : r.graph.Addressable i)
    (above : ∀ a ∈ r.graph.ancestors i, (r.graph.node a).visited = true)
    (plain : ∀ a < s.graph.size, IsPlainId (s.graph.idAt a)) :
    s.graph.Addressable target ∧ (target = i ∨ i ∈ s.graph.ancestors target) ∧
      (∀ a ∈ s.graph.ancestors target, (s.graph.node a).visited = true) ∧
      Ends ((s.graph.above target).forM (visit d)) r ⟨⟩ s := by
  induction segments generalizing behind i r with
  | nil =>
    rw [descend] at h
    obtain ⟨rfl, rfl⟩ := Ends.pure_iff.mp h
    exact ⟨addressable, .inl rfl, above,
      forM_of_visited fun a mem => above a (Graph.mem_above.mp mem)⟩
  | cons segment rest ih =>
    rw [descend] at h
    simp only [Ends.bind_iff, ends_graph] at h
    obtain ⟨_, t, visited, _, _, ⟨rfl, rfl⟩, h⟩ := h
    have visit := visit_at visited reached.sound
    have reached' := reached.visits visit.toVisits
    have sound' := reached'.sound
    have inside := addressable.inside
    have chain := (forM_chain visited reached.sound inside above).2
    split at h
    · next c found =>
      have child := List.mem_of_find?_eq_some found
      have grows := (descend_visits h sound').grows
      have own : IsPlainId (t.graph.idAt c) := by
        rw [← grows.idAt (sound'.below child).2]
        exact plain c ((sound'.below child).2.trans_le grows.size_le)
      have addressable' :=
        (addressable.grow reached.sound visit.grows sound').child sound' child own
        fun _ => Graph.le_of_findChild? sound' found
      obtain ⟨addressable, below, above', later⟩ := ih h reached' addressable' fun a high =>
        chain a (by
        rw [sound'.ancestors_of_child child] at high
        exact Graph.mem_chain.mpr (List.mem_cons.mp high))
      have high : i ∈ t.graph.ancestors c := by
        rw [sound'.ancestors_of_child child]
        exact List.mem_cons_self
      rw [← grows.ancestors (sound'.below child).2] at high
      have below : i ∈ s.graph.ancestors target := by
        rcases below with rfl | below
        · exact high
        · exact Graph.mem_ancestors_trans high below
      refine ⟨addressable, .inr below, above', ?_⟩
      rw [← List.append_nil (s.graph.above target)] at later ⊢
      exact forM_above visited reached.sound inside above below grows.toExtends later
    · exact absurd h (by rw [Ends.throw_iff]; exact id)

/-- A path leads to a node that has a text of its own, once the nodes above it are visited. -/
theorem resolve_walks {path : SelectionPath} {target : Nat}
    (h : Ends (resolve d path) r target s) (reached : r.Reached d)
    (plain : ∀ a < s.graph.size, IsPlainId (s.graph.idAt a)) :
    s.graph.Addressable target ∧
      (∀ a ∈ s.graph.ancestors target, (s.graph.node a).visited = true) ∧
      Ends ((s.graph.above target).forM (visit d)) r ⟨⟩ s := by
  have grows := (resolve_visits h reached.sound).grows
  obtain ⟨_, root, _, mem, h⟩ := descend_of_resolve h
  have inside := reached.rooted.inside root mem
  have parent := (reached.rooted.top inside).mpr mem
  have alone := Graph.ancestors_of_root parent
  have own : IsPlainId (r.graph.idAt root) := by
    rw [← grows.idAt inside]
    exact plain root (inside.trans_le grows.size_le)
  have addressable : r.graph.Addressable root := .top inside parent own
  obtain ⟨addressable, -, above, visits⟩ := descend_walks h reached addressable (by
    rw [alone]
    exact fun _ none => absurd none List.not_mem_nil) plain
  exact ⟨addressable, above, visits⟩

/-- What a path selects, as visits to the nodes above the leaves. -/
theorem resolveLeaves_walks {path : SelectionPath} {leaves : List Nat}
    (h : Ends (resolveLeaves d path) r leaves s) (deep : path.wildcard ≠ some .direct)
    (reached : r.Reached d) (keys : d.HasDistinctKeys) (refs : d.RepeatsNoBranch)
    (plain : ∀ a < s.graph.size, IsPlainId (s.graph.idAt a)) :
    leaves ≠ [] ∧ Walks d r leaves s ∧ (∀ l ∈ leaves, s.graph.Addressable l) ∧
      ∀ l ∈ leaves, ∀ l' ∈ leaves, l ∉ s.graph.ancestors l' := by
  unfold resolveLeaves at h
  simp only [Ends.bind_iff] at h
  obtain ⟨target, t, resolved, h⟩ := h
  have h : Ends (leavesBelow d target .deep) t leaves s := by
    split at h
    · next w wildcard =>
      cases w with
      | direct => exact absurd wildcard deep
      | deep => exact h
    · exact h
  have reached' := reached.visits (resolve_visits resolved reached.sound)
  have grows := (leavesBelow_finds h reached'.sound).visits.grows
  have reached'' := reached'.visits (leavesBelow_finds h reached'.sound).visits
  obtain ⟨addressable, above, front⟩ := resolve_walks resolved reached fun a inside => by
    rw [← grows.idAt inside]
    exact plain a (inside.trans_le grows.size_le)
  unfold leavesBelow at h
  simp only [Ends.bind_iff, Ends.get_iff] at h
  obtain ⟨_, _, ⟨rfl, rfl⟩, h⟩ := h
  have inside := addressable.inside
  obtain ⟨some, enters, walks⟩ := leavesWithin_walks h reached' inside above
  have sound := reached''.sound
  refine ⟨some, ⟨walks.leaf, walks.above, ?_⟩, fun l mem => ?_, fun l mem l' mem' below => ?_⟩
  · obtain ⟨l, rest, rfl⟩ := List.exists_cons_of_ne_nil some
    have same := grows.above inside
    obtain ⟨between, split⟩ : ∃ between, s.graph.above l = t.graph.above target ++ between := by
      rcases (enters l List.mem_cons_self).above sound with rfl | below
      · exact ⟨[], by rw [same, List.append_nil]⟩
      · obtain ⟨between, split⟩ := Graph.above_eq_append below
        refine ⟨target :: between, ?_⟩
        rw [split, ← same, Graph.chain, List.reverse_cons, List.append_assoc]
        rfl
    have later := walks.visits
    rw [List.flatMap_cons, split, List.append_assoc] at later ⊢
    exact forM_absorb front (fun a mem => above a (Graph.mem_above.mp mem)) later
  · exact (addressable.grow reached'.sound grows sound).enters (enters l mem)
      sound reached''.derived keys refs plain
  · have open_ := (enters l' mem').open_of_mem sound ((enters l mem).above sound) below
    rw [walks.leaf l mem] at open_
    cases open_

end Build

end RestGraph
