import RestGraph.Proofs.Graph.Bearing
import RestGraph.Proofs.Graph.Blending
import RestGraph.Proofs.Schema.References

/-!
# What is absorbed

The branches of the compositions that were merged are absorbed, and nothing else is. As all of them
were visited, none comes up later. A composition stands before its branches among the containers, so
that a branch has been absorbed when its turn comes: unless it is pruned then, references are left
to what it stands for.
-/

namespace RestGraph

variable {d : Document} {c : Collection} {g h : Graph} {r s : Run} {a b i j n : Nat}

def Graph.Merges (g : Graph) (n : Nat) : Prop :=
  (g.node n).kind.isComposition = true ∧ (g.node n).consolidated = true

theorem Graph.Merges.inside (merges : g.Merges n) : n < g.size :=
  Graph.lt_size_of_ne fun nowhere => by
    rw [Merges, nowhere] at merges
    cases merges.1

theorem Graph.Merges.grow {busy : Set Nat} (merges : g.Merges n)
    (step : g.Grows busy h) : h.Merges n :=
  ⟨(congrArg Kind.isComposition (step.kind merges.inside)).trans merges.1,
    (step.keeps merges.inside).consolidated merges.2⟩

namespace Run

/-- What was absorbed are the branches of the compositions that were merged, and none of these is
left to visit. -/
structure Absorbing (r : Run) : Prop where
  sound : r.graph.Sound
  ledger : r.Ledger []
  visited : ∀ {n}, r.graph.Merges n → (r.graph.node n).visited = true ∧
    ∀ b, r.graph.Branch n b → (r.graph.node b).visited = true
  absorbed : ∀ {b}, r.isAbsorbed b = true ↔ ∃ n, r.graph.Merges n ∧ r.graph.Branch n b

namespace Absorbing

/-- What a composition that was merged has for branches does not change. -/
theorem branch_iff (absorbing : r.Absorbing) (step : r.graph.Grows r.graph.unvisited s.graph)
    (merges : r.graph.Merges n) : s.graph.Branch n b ↔ r.graph.Branch n b := by
  obtain ⟨visited, below⟩ := absorbing.visited merges
  exact ⟨fun branch => branch.of_grows step absorbing.sound merges.inside visited below,
    fun branch => branch.extend step.toExtends⟩

/-- What a node merges has been visited and goes on being so. -/
theorem visited_grow (absorbing : r.Absorbing) (step : r.graph.Grows r.graph.unvisited s.graph)
    (merges : r.graph.Merges n) : (s.graph.node n).visited = true ∧
      ∀ b, s.graph.Branch n b → (s.graph.node b).visited = true := by
  obtain ⟨visited, below⟩ := absorbing.visited merges
  refine ⟨(step.keeps merges.inside).visited visited, fun b branch => ?_⟩
  have branch := (absorbing.branch_iff step merges).mp branch
  exact (step.keeps (branch.lt_size absorbing.sound)).visited (below b branch)

/-- As long as nothing is merged, nothing is absorbed. -/
theorem grow (absorbing : r.Absorbing) (sound : s.graph.Sound) (ledger : s.Ledger [])
    (step : r.graph.Grows r.graph.unvisited s.graph) (absorbed : s.absorbed = r.absorbed)
    (merges : ∀ {n}, s.graph.Merges n → r.graph.Merges n) : s.Absorbing where
  sound := sound
  ledger := ledger
  visited merged := absorbing.visited_grow step (merges merged)
  absorbed {b} := by
    rw [isAbsorbed, absorbed]
    refine absorbing.absorbed.trans (exists_congr fun n => ?_)
    constructor
    · rintro ⟨merged, branch⟩
      exact ⟨merged.grow step, (absorbing.branch_iff step merged).mpr branch⟩
    · rintro ⟨merged, branch⟩
      exact ⟨merges merged, (absorbing.branch_iff step (merges merged)).mp branch⟩

/-- Only branches are absorbed. -/
theorem isBranch (absorbing : r.Absorbing) (absorbed : r.isAbsorbed b = true) :
    r.graph.IsBranch b := by
  obtain ⟨n, merges, branch⟩ := absorbing.absorbed.mp absorbed
  exact ⟨n, merges.1, branch⟩

end Absorbing

theorem growth_of_sound (d : Document) (sound : r.graph.Sound) : (growth d).holds r :=
  ⟨sound.toForest, fun _ _ field => (sound.fields field).above⟩

/-- Merging for the first time absorbs what it answers with. -/
theorem absorbed_of_consolidate {branches : List Nat}
    (h : Ends (Build.consolidate d i) r branches s) (sound : r.graph.Sound) (ledger : r.Ledger [])
    (fresh : (r.graph.node i).consolidated = false) : s.absorbed = r.absorbed ++ branches := by
  obtain ⟨done, -⟩ | ⟨-, u, m, t, visit, merges, rfl, rfl⟩ := Build.consolidate_cases h
  · rw [fresh] at done
    cases done
  · have keeps : r.Keeps u := Acts.keeps (Build.visit_acts.ends visit)
    have steps := (Build.visit_steps visit sound).1
    have booked := booked_of_merge (growth_of_sound d (steps.sound sound))
      (keeps.ledger ledger) merges
    change t.absorbed ++ m.consumed = _
    rw [booked.ledger.absorbed, booked.consumed, ledger.absorbed, ← keeps.consumed]
    rfl

/-- A run goes on absorbing when a composition is consolidated. -/
theorem Absorbing.consolidate {branches : List Nat} (absorbing : r.Absorbing)
    (h : Ends (Build.consolidate d i) r branches s)
    (composition : (r.graph.node i).kind.isComposition = true) : s.Absorbing := by
  have sound := absorbing.sound
  obtain ⟨drafts, consolidated⟩ := Build.consolidate_drafts h sound composition
  have ledger : s.Ledger [] := ((comes_books (growth_of_sound d sound)).ends h).2 absorbing.ledger
  cases fresh : (r.graph.node i).consolidated with
  | true =>
    obtain ⟨-, rfl⟩ | ⟨other, -⟩ := Build.consolidate_cases h
    · exact absorbing
    · rw [fresh] at other
      cases other
  | false =>
    have merged := Build.consolidate_mergedAt h sound composition fresh
    have inside : i < r.graph.size := Graph.lt_size_of_ne fun nowhere => by
      rw [nowhere] at composition
      cases composition
    have self : s.graph.Merges i :=
      ⟨(congrArg Kind.isComposition (drafts.grows.kind inside)).trans composition, consolidated⟩
    -- any other composition had been merged before
    have before : ∀ {n}, s.graph.Merges n → n = i ∨ r.graph.Merges n := fun {n} merges => by
      by_cases same : n = i
      · exact .inl same
      · obtain ⟨old, done⟩ := Build.consolidated_of_consolidate h sound composition merges.inside
          merges.2 same
        exact .inr ⟨(congrArg Kind.isComposition (drafts.grows.kind old)).symm.trans merges.1, done⟩
    refine ⟨drafts.sound sound, ledger, fun merges => ?_, fun {b} => ?_⟩
    · rcases before merges with rfl | old
      · exact ⟨merged.visited, fun b branch => (merged.done b ((merged.branch b).mpr branch)).2⟩
      · exact absorbing.visited_grow drafts.grows old
    · rw [isAbsorbed, absorbed_of_consolidate h sound absorbing.ledger fresh, List.contains_iff_mem,
        List.mem_append]
      constructor
      · rintro (old | new)
        · obtain ⟨n, merges, branch⟩ := absorbing.absorbed.mp (List.contains_iff_mem.mpr old)
          exact ⟨n, merges.grow drafts.grows, (absorbing.branch_iff drafts.grows merges).mpr branch⟩
        · exact ⟨i, self, (merged.branch b).mp new⟩
      · rintro ⟨n, merges, branch⟩
        rcases before merges with rfl | old
        · exact .inr ((merged.branch b).mpr branch)
        · have branch := (absorbing.branch_iff drafts.grows old).mp branch
          exact .inl (List.contains_iff_mem.mp (absorbing.absorbed.mpr ⟨n, old, branch⟩))

/-- The course of what is absorbed. A step that fails may have marked a composition that it has not
merged, so nothing is said of where it stops. -/
def absorption (d : Document) : Course d where
  lasting := False
  holds := Absorbing
  along r s := r.Absorbing → s.Absorbing
  preorder := { refl := fun _ => id, trans := fun _ _ _ first second => second ∘ first }
  keeps := id
  registry {r s} notes _ := fun absorbing => by
    have ledger := absorbing.ledger.note notes
    have step : r.graph.Grows r.graph.unvisited s.graph := notes.graph ▸ .refl _ _
    exact absorbing.grow (notes.graph ▸ absorbing.sound) ledger step notes.absorbed
      fun merges => notes.graph ▸ merges
  visit {r s i} _ h := fun absorbing => by
    have visits := (Build.visit_steps h absorbing.sound).1
    have keeps : r.Keeps s := Acts.keeps (Build.visit_acts.ends h)
    have ledger := keeps.ledger absorbing.ledger
    have absorbed : s.absorbed = r.absorbed := by
      rw [ledger.absorbed, keeps.consumed, absorbing.ledger.absorbed]
    refine absorbing.grow (visits.sound absorbing.sound)
      ledger visits.grows absorbed fun merges => ?_
    obtain ⟨old, done⟩ := visits.unmerged merges.inside merges.2
    exact ⟨(congrArg Kind.isComposition (visits.grows.kind old)).symm.trans merges.1, done⟩

def absorbing (d : Document) : Routine d where
  toCourse := absorption d
  compose holds composition :=
    { ends := fun h absorbing => absorbing.consolidate h composition
      fails := fun h => by
        obtain ⟨u, -, given⟩ := (comes_books (growth_of_sound d holds.sound)).fails h
        exact ⟨u, False.elim, given⟩ }

/-- Nothing is merged in the first run. -/
theorem not_merges_ofDocument : ¬(ofDocument d).graph.Merges n := fun merges => by
  have tag := (Graph.unvisited_ofDocument d n merges.inside).1
  have plain : ((Graph.ofDocument d).node n).kind.isComposition = false := by
    cases kind : ((Graph.ofDocument d).node n).kind <;> rw [kind] at tag <;>
      first | rfl | cases tag
  exact Bool.false_ne_true (plain.symm.trans merges.1)

theorem ofDocument_absorbing (d : Document) : (ofDocument d).Absorbing where
  sound := Graph.ofDocument_sound d
  ledger := ofDocument_ledger d
  visited merges := absurd merges not_merges_ofDocument
  absorbed := iff_of_false Bool.false_ne_true fun ⟨_, merges, _⟩ => not_merges_ofDocument merges

end Run

/-! ## Bearers -/

namespace Graph

/-- What bears a node is a composition that it is merged into, and the topmost one. -/
theorem Forest.branch_of_bearer? (forest : g.Forest) (bearer : g.bearer? b = some a) :
    (g.node a).kind.isComposition = true ∧ g.Branch a b ∧ g.bearer? a = none := by
  induction b using Nat.strongRecOn with
  | ind b ih =>
    cases parent : (g.node b).parent with
    | none =>
      rw [bearer?, parent] at bearer
      cases bearer
    | some p =>
      have child := forest.child parent
      have lt := (forest.below child).1
      rw [forest.bearer?_of_child child] at bearer
      split at bearer
      · next composition =>
        have edge : g.Edge p b := ⟨Kind.expands_of_isComposition composition, child⟩
        cases top : g.bearer? p with
        | none =>
          rw [top] at bearer
          cases bearer
          exact ⟨composition, .single edge, top⟩
        | some x =>
          rw [top] at bearer
          cases bearer
          obtain ⟨composition, branch, none⟩ := ih p lt top
          exact ⟨composition, branch.tail edge, none⟩
      · split at bearer
        · next expands =>
          obtain ⟨composition, branch, none⟩ := ih p lt bearer
          exact ⟨composition, branch.tail ⟨expands, child⟩, none⟩
        · cases bearer

theorem Forest.isSome_bearer? (forest : g.Forest) (isBranch : g.IsBranch b) :
    (g.bearer? b).isSome = true := by
  obtain ⟨o, composition, branch⟩ := isBranch
  induction branch with
  | single edge => rw [forest.bearer?_of_child edge.2, composition]; rfl
  | tail _ edge ih =>
    rw [forest.bearer?_of_child edge.2, edge.1]
    split
    · rfl
    · exact ih

theorem Grows.bearer? {busy : Set Nat} (step : g.Grows busy h) (old : b < g.size) :
    h.bearer? b = g.bearer? b := by
  induction b using Nat.strongRecOn with
  | ind b ih =>
    rw [Graph.bearer?, Graph.bearer?, (step.keeps old).parent]
    cases (g.node b).parent with
    | none => rfl
    | some p =>
      dsimp only
      split
      · next lt => rw [ih p lt (lt.trans old), step.kind (lt.trans old)]
      · rfl

end Graph

/-! ## Pruning -/

/-- A container stands behind the containers above it. -/
theorem Collection.Sound.mem_take {turn : Nat} (collected : c.Sound g)
    (at_ : c.containers[turn]? = some j) (above : a ∈ g.ancestors j)
    (container : (g.node a).kind.isContainer = true) : a ∈ c.containers.take turn := by
  obtain ⟨lt, here⟩ := List.getElem?_eq_some_iff.mp at_
  have selected := (collected.containers j (List.mem_of_getElem? at_)).1
  have mem := collected.all_containers a (collected.upward j selected a above) container
  rw [← List.take_append_drop turn c.containers, List.drop_eq_getElem_cons lt, here,
    List.mem_append, List.mem_cons] at mem
  rcases mem with early | same | late
  · exact early
  · exact absurd (Graph.lt_of_mem_ancestors above) (same ▸ Nat.lt_irrefl a)
  · have ranked := collected.ranked.sublist (List.drop_sublist turn _)
    rw [List.drop_eq_getElem_cons lt, here] at ranked
    exact absurd above ((List.pairwise_cons.mp ranked).1 a late)

/-- What is absorbed and is not pruned stands below a reference, and references to what it stands
for are left. -/
theorem Draft.reference_of_not_isPruned (absorbed : r.isAbsorbed i = true)
    (spared : isPruned r i = false) : ∃ p pointer, (r.graph.node i).parent = some p ∧
      (r.graph.node p).kind = .reference pointer ∧ 0 < r.refCount pointer := by
  rw [isPruned, absorbed, Bool.true_and] at spared
  split at spared
  · next pointer above =>
    obtain ⟨p, parent, kind⟩ := Option.map_eq_some_iff.mp above
    exact ⟨p, pointer, parent, kind, Int.not_le.mp (of_decide_eq_false spared)⟩
  · cases spared

namespace Drafting

open Draft

variable {s t u : Draft} {turn : Nat}

theorem coming_declareContainer {S : Routine d} :
    Coming S.toCourse Draft.run (declareContainer d c i) := by
  refine Coming.get.bind fun s => ?_
  dsimp only
  split
  · exact .pure _
  · split
    · exact .pure _
    · exact coming_nodeType.discard

/-- Rounds of the loop over the containers keep the account of what is absorbed. -/
theorem absorbing_of_turns {xs : List Nat} (absorbing : s.run.Absorbing)
    (h : Ends (xs.forM (declareContainer d c)) s ⟨⟩ t) : t.run.Absorbing :=
  (Coming.forM (S := (Run.absorbing d).toCourse) _ (fun _ => coming_declareContainer)
    absorbing).ends h absorbing

/-- Rounds of the loop over the containers only add to what there is. -/
theorem declareContainer_grows {xs : List Nat} (h : Ends (xs.forM (declareContainer d c)) s ⟨⟩ t)
    (sound : s.run.graph.Sound) (collected : c.Sound s.run.graph) (sub : xs ⊆ c.containers) :
    s.Grows d t := by
  refine Ends.forM_keeps (I := fun t => s.Grows d t) (fun {j v w} mem before h => ?_) (.refl d s) h
  have container := ((collected.grow before.run.grows).containers j (sub mem)).2
  obtain rfl | ⟨-, -, -, typed⟩ := declareContainer_typed h (before.sound sound) container
  · exact before
  · exact before.trans typed.grows

/-- Unless it is passed over, a composition has been merged when its turn is over. -/
theorem declareContainer_merges (h : Ends (declareContainer d c i) s ⟨⟩ t)
    (sound : s.run.graph.Sound) (composition : (s.run.graph.node i).kind.isComposition = true)
    (outside : s.run.graph.inArguments i = false) (spared : isPruned s.run i = false) :
    t.run.graph.Merges i := by
  have facts : (s.run.graph.node i).kind.tag ≠ .circular ∧
      (s.run.graph.node i).kind.isSchema = true ∧
      (s.run.graph.node i).kind.isStructured = true := by
    cases kind : (s.run.graph.node i).kind <;> rw [kind] at composition <;>
      first | exact ⟨Tag.noConfusion, rfl, rfl⟩ | cases composition
  obtain ⟨open_, schema, structured⟩ := facts
  have inside : i < s.run.graph.size := Graph.lt_size_of_ne fun e => by
    rw [e] at composition
    cases composition
  obtain ⟨-, circular | within | pruned⟩ | ⟨-, -, -, ty, h⟩ := declareContainer_cases h
  · exact absurd circular open_
  · rw [outside] at within
    cases within
  · rw [spared] at pruned
    cases pruned
  · obtain ⟨typed, -⟩ := nodeType_typed h sound inside schema
    have kind := typed.grows.run.grows.kind inside
    have settled := (typed.explored ⟨rfl, rfl⟩).settled _ (.here i)
    rw [Graph.elementOf_of_isStructured (kind ▸ structured)] at settled
    have merged := settled.merged
    rw [Node.isMerged, kind, composition, Bool.not_true, Bool.false_or] at merged
    exact ⟨kind ▸ composition, merged⟩

/-- When the turn of a branch comes, the composition that bears it has taken it in. -/
theorem absorbed_of_turn (absorbing : s.run.Absorbing) (collected : c.Sound s.run.graph)
    (at_ : c.containers[turn]? = some j)
    (front : Ends ((c.containers.take turn).forM (declareContainer d c)) s ⟨⟩ u)
    (outside : s.run.graph.inArguments j = false) (bearer : s.run.graph.bearer? j = some a) :
    u.run.isAbsorbed j = true := by
  have sound := absorbing.sound
  obtain ⟨composition, branch, top⟩ := sound.toForest.branch_of_bearer? bearer
  have above := branch.mem_ancestors sound
  have inside : a < s.run.graph.size :=
    (Graph.lt_of_mem_ancestors above).trans (branch.lt_size sound)
  have container : (s.run.graph.node a).kind.isContainer = true := by
    cases kind : (s.run.graph.node a).kind <;> rw [kind] at composition <;>
      first | rfl | cases composition
  -- the composition stands before its branch, and is not passed over
  obtain ⟨before, between, split⟩ := List.append_of_mem (collected.mem_take at_ above container)
  have sub : before ++ a :: between ⊆ c.containers := split ▸ List.take_subset turn _
  have all : s.Grows d u := declareContainer_grows front sound collected (List.take_subset turn _)
  rw [split] at front
  obtain ⟨v, first, last⟩ := Ends.forM_append_iff.mp front
  obtain ⟨w, turn, last⟩ := Ends.forM_cons_iff.mp last
  have early : s.Grows d v :=
    declareContainer_grows first sound collected (List.append_subset.mp sub).1
  have kind := early.run.grows.kind inside
  have merges : w.run.graph.Merges a := by
    refine declareContainer_merges turn (absorbing_of_turns absorbing first).sound
      (kind ▸ composition) ?_ ?_
    · rw [early.run.grows.toExtends.inArguments inside, ← Bool.not_eq_true]
      exact fun within => Bool.false_ne_true
        (outside.symm.trans (Graph.inArguments_of_mem_ancestors within above))
    · rw [isPruned, Bool.and_eq_false_iff]
      refine .inl (Bool.eq_false_iff.mpr fun absorbed => ?_)
      have sound := (absorbing_of_turns absorbing first).sound
      have borne := sound.toForest.isSome_bearer?
        ((absorbing_of_turns absorbing first).isBranch absorbed)
      rw [early.run.grows.bearer? inside, top] at borne
      cases borne
  have until_ : Ends ((before ++ [a]).forM (declareContainer d c)) s ⟨⟩ w :=
    Ends.forM_append_iff.mpr ⟨v, first, Ends.forM_cons_iff.mpr ⟨w, turn, Ends.forM_nil_iff.mpr rfl⟩⟩
  have mid : s.Grows d w := declareContainer_grows until_ sound collected fun i mem => by
    refine sub ?_
    rw [List.append_cons]
    exact List.mem_append_left _ mem
  have late : w.Grows d u := by
    refine declareContainer_grows last (absorbing_of_turns absorbing until_).sound
      (collected.grow mid.run.grows) ?_
    exact fun i mem => sub (List.mem_append_right _ (List.mem_cons_of_mem a mem))
  exact (absorbing_of_turns absorbing front).absorbed.mpr
    ⟨a, merges.grow late.run.grows, branch.extend all.run.grows.toExtends⟩

end Drafting

end RestGraph
