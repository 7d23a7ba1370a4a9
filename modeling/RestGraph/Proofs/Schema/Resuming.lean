import RestGraph.Proofs.Schema.Guided
import RestGraph.Proofs.Schema.History

/-!
# Resuming

Wherever a client has come to, also after calls that failed: from then on steps that succeed give a
node that is visited the children that its site says. So two runs that go on from the same one, in
whatever order they visit nodes, have the same nodes at the same places.
-/

namespace RestGraph

variable {d : Document} {r s t : Run} {g h : Graph} {a b i j : Nat}

/-- The nodes that have their children: those that were built with them or visited. -/
def Graph.seated (g : Graph) : Set Nat := { o | o < g.size ∧ o ∉ g.pending }

namespace Graph

/-- A node that is not seated awaits its visit. -/
theorem pending_of_notMem_seated (inside : i < g.size) (idle : i ∉ g.seated) : i ∈ g.pending := by
  by_contra settled
  exact idle ⟨inside, settled⟩

/-- What was seated when the graph had fewer nodes is neither at a late node that is not visited nor
below it. -/
theorem Forest.apart_of_late (forest : h.Forest) (grown : g.Extends h)
    (late : (h.node i).kind.isEager = false) (fresh : (h.node i).visited = false) :
    h.Apart g.seated i := by
  rintro b ⟨old, seated⟩
  refine ⟨old.trans_le grown.size_le, fun above => ?_⟩
  rcases List.mem_cons.mp above with rfl | above
  · have keeps := grown.keeps old
    exact seated ⟨keeps.kind.isEager.symm.trans late, Bool.eq_false_iff.mpr fun visited =>
      Bool.eq_false_iff.mp fresh (keeps.visited visited)⟩
  · obtain ⟨c, child, -⟩ := forest.exists_child_of_mem_ancestors above
    rw [forest.late late fresh] at child
    cases child

/-- Nor is it at a node that has come since. -/
theorem apart_of_new (grown : g.Extends h) (new : g.size ≤ i) : h.Apart g.seated i := by
  rintro b ⟨old, -⟩
  refine ⟨old.trans_le grown.size_le, fun above => ?_⟩
  have before := old.trans_le new
  rcases List.mem_cons.mp above with same | above
  · exact Nat.lt_irrefl b (same ▸ before)
  · exact Nat.lt_asymm before (lt_of_mem_ancestors above)

end Graph

/-- What a visit comes to in a run that goes on from one with the graph. -/
structure Run.Continues (d : Document) (g : Graph) (s t : Run) : Prop where
  forest : t.graph.Forest
  tidy : t.Tidy d g.seated
  grows : s.graph.Grows s.graph.pending t.graph

namespace Run.Continues

theorem trans (first : r.Continues d g s) (second : s.Continues d g t) : r.Continues d g t :=
  ⟨second.forest, second.tidy, first.grows.trans second.grows first.grows.pending⟩

end Run.Continues

namespace Build

/-- What is made with its children has them visited. -/
theorem visitKind_of_eager {visitChild : Nat → Build Unit} {k : Kind} (eager : k.isEager = true) :
    visitKind d visitChild i k = visitChildren visitChild i := by
  cases k <;> first | rfl | cases eager

/-- Nodes that were there with their children keep them, whatever these are. -/
theorem visitWithin_continues {depth : Nat} (h : Ends (visitWithin d depth i) s ⟨⟩ t)
    (forest : s.graph.Forest) (tidy : s.Tidy d g.seated) (grown : g.Extends s.graph)
    (inside : i < s.graph.size) : s.Continues d g t := by
  induction depth generalizing i s t with
  | zero => exact absurd h (by rw [visitWithin, Ends.throw_iff]; exact id)
  | succ depth ih =>
    have apart : s.graph.Apart g.seated i → s.Continues d g t := fun apart => by
      obtain ⟨_, -, unfolds⟩ := (visitWithin_unfolding _ tidy apart inside).ends h
      exact ⟨(visitWithin_steps h forest).forest forest, unfolds.tidy, unfolds.grows⟩
    rw [visitWithin] at h
    simp only [Ends.bind_iff, ends_node] at h
    obtain ⟨_, _, ⟨rfl, rfl⟩, h⟩ := h
    split at h
    · obtain ⟨-, rfl⟩ := Ends.pure_iff.mp h
      exact ⟨forest, tidy, .refl _ _⟩
    next fresh =>
    cases eager : (s.graph.node i).kind.isEager with
    | false => exact apart (forest.apart_of_late grown eager (Bool.eq_false_iff.mpr fresh))
    | true =>
      rcases Nat.lt_or_ge i g.size with old | new
      swap
      · exact apart (Graph.apart_of_new grown new)
      -- The node has its children already; what its visit does is left to them.
      have seated : i ∈ g.seated := ⟨old, fun pending => by
        rw [(grown.keeps old).kind.isEager, pending.1] at eager
        cases eager⟩
      simp only [Ends.bind_iff, ends_modifyNode, ends_framed] at h
      obtain ⟨_, _, rfl, u, h, rfl⟩ := h
      rw [visitKind_of_eager eager] at h
      have keep : ∀ n : Node, n.Keeps { n with visited := true } := fun n =>
        { Node.Keeps.refl n with visited := fun _ => rfl }
      let marked := (s.onGraph fun g => g.modify i fun n => { n with visited := true }).enter i
        (s.graph.node i).kind.tag
      have mark : s.graph.Grows ∅ marked.graph :=
        .mark keep (fun _ => rfl) (fun _ => rfl) fun _ => rfl
      have moved : s.graph.Move d marked.graph := .visit inside
      have first : s.Continues d g marked := by
        refine ⟨forest.move moved, ?_, mark.idle⟩
        refine tidy.grow mark (tidy.orderly.modify (keep _) rfl) rfl
          (fun _ _ => Set.notMem_empty _) fun {o} inside visited idle => ?_
        have other : o ≠ i := fun same => idle (same ▸ seated)
        rw [show marked.graph.node o = s.graph.node o from Graph.node_modify_of_ne other] at visited
        exact ⟨Graph.size_modify (g := s.graph) ▸ inside, visited, idle, Set.notMem_empty _⟩
      have below : ∀ {c}, c ∈ (marked.graph.node i).children → c < s.graph.size := fun child =>
        Graph.size_modify (g := s.graph) ▸ (first.forest.below child).2
      rw [visitChildren] at h
      simp only [Ends.bind_iff, ends_node] at h
      obtain ⟨_, _, ⟨rfl, rfl⟩, h⟩ := h
      have last : s.Continues d g u := Ends.forM_keeps (I := fun v => s.Continues d g v)
        (fun child before h => before.trans (ih h before.forest before.tidy
          (grown.trans before.grows.toExtends)
          ((below child).trans_le before.grows.size_le))) first h
      exact ⟨last.forest, last.tidy.of_same rfl rfl, last.grows⟩

end Build

namespace Run

/-- The run goes on from another: what this one had built stays, and what is visited from then on
has its children. -/
structure Resumes (d : Document) (r s : Run) : Prop where
  grown : r.graph.Extends s.graph
  forest : s.graph.Forest
  tidy : s.Tidy d r.graph.seated
  site : ∀ {o}, o < r.graph.size → s.graph.site o = r.graph.site o
  children : ∀ {o}, o ∈ r.graph.seated → (s.graph.node o).children = (r.graph.node o).children

namespace Resumes

theorem continues (resumes : r.Resumes d s) (continues : s.Continues d r.graph t) :
    r.Resumes d t where
  grown := resumes.grown.trans continues.grows.toExtends
  forest := continues.forest
  tidy := continues.tidy
  site old := (continues.grows.site resumes.tidy.orderly
    (fun _ => Graph.notMem_pending_of_eager) (old.trans_le resumes.grown.size_le)).trans
      (resumes.site old)
  children {o} seated := by
    have keeps := resumes.grown.keeps seated.1
    rw [continues.grows.children (seated.1.trans_le resumes.grown.size_le), resumes.children seated]
    refine fun pending => seated.2 ⟨keeps.kind.isEager.symm.trans pending.1, ?_⟩
    exact Bool.eq_false_iff.mpr fun visited =>
      Bool.eq_false_iff.mp pending.2 (keeps.visited visited)

theorem of_same (resumes : r.Resumes d s) (graph : t.graph = s.graph)
    (extent : t.extent = s.extent) : r.Resumes d t where
  grown := graph ▸ resumes.grown
  forest := graph ▸ resumes.forest
  tidy := resumes.tidy.of_same graph extent
  site old := by rw [graph, resumes.site old]
  children seated := by rw [graph, resumes.children seated]

/-- A change of one node that is no matter for sites. -/
theorem modify {f : Node → Node} (resumes : r.Resumes d s) (keep : ∀ n : Node, n.Keeps (f n))
    (kind : ∀ n, (f n).kind = n.kind) (children : ∀ n, (f n).children = n.children)
    (visited : ∀ n, (f n).visited = n.visited) : r.Resumes d (s.onGraph fun g => g.modify i f) where
  grown := resumes.grown.trans (.modify (keep _))
  forest := by
    rcases Nat.lt_or_ge i s.graph.size with inside | out
    · exact resumes.forest.mark inside (keep _) (children _) (kind _)
    · change (s.graph.modify i f).Forest
      rw [Graph.modify_of_size_le out]
      exact resumes.forest
  tidy := resumes.tidy.modify keep kind children visited
  site {o} old := by
    have seed : ∀ n, (f n).seed = n.seed := fun n => by
      rw [Node.seed, kind, (keep n).name, (keep n).discriminant, (keep n).scope, (keep n).schema]
      rfl
    refine Eq.trans ?_ (resumes.site old)
    exact resumes.tidy.orderly.site_modify seed kind (fun n => (keep n).parent) children o
  children {o} seated :=
    (Graph.part_modify Node.children children o).trans (resumes.children seated)

end Resumes

/-- The course of the runs that go on from one. -/
def resuming (d : Document) (r : Run) : Course d where
  holds := Resumes d r
  along s t := r.Resumes d s → r.Resumes d t
  preorder := { refl := fun _ => id, trans := fun _ _ _ first second => second ∘ first }
  keeps along := along
  registry notes extent resumes := resumes.of_same notes.graph extent
  visit {s t i} resumes h _ := by
    by_cases inside : i < s.graph.size
    · unfold Build.visit at h
      simp only [Ends.bind_iff, Ends.get_iff] at h
      obtain ⟨_, _, ⟨rfl, rfl⟩, h⟩ := h
      exact resumes.continues
        (Build.visitWithin_continues h resumes.forest resumes.tidy resumes.grown inside)
    · have visited : (s.graph.node i).visited = true := by
        rw [Graph.node_of_size_le (Nat.le_of_not_lt inside)]
        rfl
      obtain ⟨-, rfl⟩ := (Build.ends_visit_of_visited visited).unique h
      exact resumes

instance : (resuming d r).Bookless :=
  ⟨fun graph extent _ _ resumes => resumes.of_same graph extent⟩

/-- Merging goes on from a run as its visits do. -/
theorem Resumes.consolidate {branches : List Nat} (resumes : r.Resumes d s)
    (h : Ends (Build.consolidate d i) s branches t) : r.Resumes d t :=
  (Build.coming_consolidate_of (S := resuming d r)
    (fun _ resumes =>
      resumes.modify (fun n => { Node.Keeps.refl n with consolidated := fun _ => rfl })
      (fun _ => rfl) (fun _ => rfl) fun _ => rfl)
    (fun _ _ resumes => resumes.modify (fun n => { Node.Keeps.refl n with })
      (fun _ => rfl) (fun _ => rfl) fun _ => rfl) resumes).ends h resumes

theorem Guided.firm (guided : r.Guided d) : r.Firm d := by
  induction guided with
  | start => exact ⟨Graph.ofDocument_firm d, rfl⟩
  | call c _ _ firm =>
    exact Advances.firm
      (c.after_along (S := growing d) ⟨firm.graph.forest, firm.graph.fielded⟩) firm
  | beside graph extent _ firm => exact ⟨graph ▸ firm.graph, extent.trans firm.extent⟩

/-- Wherever calls have led to, steps that succeed go on from there. -/
theorem Guided.resumes (guided : r.Guided d) : r.Resumes d r where
  grown := .refl _
  forest := guided.sound.toForest
  tidy :=
    { orderly := guided.firm.graph.forest.orderly guided.firm.graph.lineal
      extent := guided.firm.extent
      settled := fun inside visited idle =>
        absurd ⟨inside, Graph.notMem_pending_of_visited visited⟩ idle }
  site _ := rfl
  children _ := rfl

/-! ## Merged nodes -/

end Run

/-- Compositions that were merged had been visited. -/
def Graph.Earned (g : Graph) : Prop :=
  ∀ i, (g.node i).kind.isComposition = true → (g.node i).consolidated = true →
    (g.node i).visited = true

namespace Graph.Earned

/-- A node that is enrolled keeps the marks earned. -/
theorem enroll (earned : g.Earned) (enrolls : g.Enrolls h) : h.Earned := by
  intro i composition merged
  rcases Nat.lt_or_ge i h.size with inside | out
  · obtain ⟨old, before⟩ := enrolls.unmerged inside merged
    have keeps := enrolls.grown.keeps old
    exact keeps.visited (earned i (keeps.isComposition ▸ composition) before)
  · rw [node_of_size_le out]
    rfl

theorem mark (earned : g.Earned) (visited : (g.node i).visited = true) :
    (g.modify i fun n => { n with consolidated := true }).Earned := by
  intro j composition merged
  rw [part_modify Node.visited fun _ => by rfl]
  rw [part_modify Node.kind fun _ => by rfl] at composition
  by_cases same : j = i
  · exact same ▸ visited
  · rw [node_modify_of_ne same] at merged
    exact earned j composition merged

/-- Fields that are entered leave the marks earned. -/
theorem withProps {own : List (String × Nat)} (earned : g.Earned) :
    (g.modify i (Node.withProps own)).Earned := by
  intro j composition merged
  rw [part_modify Node.visited fun _ => by rfl]
  rw [part_modify Node.kind fun _ => by rfl] at composition
  rw [part_modify Node.consolidated fun _ => by rfl] at merged
  exact earned j composition merged

end Graph.Earned

/-- The graph of a document starts with no mark. -/
theorem Graph.ofDocument_earned (d : Document) : (ofDocument d).Earned := by
  intro i composition _
  rcases ofDocument_lists d i with nowhere | lists
  · rw [nowhere]
    rfl
  · cases kind : ((ofDocument d).node i).kind <;> rw [kind] at composition <;>
      first | exact Bool.noConfusion composition | exact Tag.noConfusion (kind ▸ lists.tag)

namespace Run

/-- The course of merged nodes. -/
def earns (d : Document) : Course d where
  holds _ := True
  along r s := r.graph.Earned → s.graph.Earned
  preorder := { refl := fun _ => id, trans := fun _ _ _ first second => second ∘ first }
  keeps _ _ := trivial
  registry notes _ := notes.graph ▸ id
  visit _ h earned := earned.enroll (Build.visit_acts.ends h).enrolls

instance : (earns d).Enduring where
  fails _ h earned := earned.enroll (Build.visit_acts.fails h).enrolls

instance : (earns d).Bookless :=
  ⟨fun {r s} graph _ _ _ => show r.graph.Earned → s.graph.Earned from graph ▸ id⟩

def earning (d : Document) : OpenRegime d where
  toCourse := earns d
  frames := id
  consolidate i {r} _ := by
    have marks : ∀ {s}, (r.graph.node i).consolidated = false → Ends (Build.visit d i) r ⟨⟩ s →
        r.graph.Earned → (s.marked i).graph.Earned := fun fresh visits earned => by
      have inside : i < r.graph.size := Graph.lt_size_of_ne fun nowhere => by
        rw [nowhere] at fresh
        cases fresh
      exact ((earns d).visit trivial visits earned).mark (Build.isDone_of_visit inside visits).2
    exact Build.comes_consolidate (S := earns d) trivial (fun _ => trivial)
      (fun fresh visits along lasting earned => along lasting (marks fresh visits earned))
      fun fresh visits merges earned =>
        ((Build.coming_mergeLevels (S := earns d) trivial).ends merges
        (marks fresh visits earned)).withProps

instance : (earning d).toCourse.Enduring := inferInstanceAs (earns d).Enduring

theorem Guided.earned (guided : r.Guided d) : r.graph.Earned := by
  induction guided with
  | start => exact Graph.ofDocument_earned d
  | call c _ _ earned => exact c.after_along (S := earning d) trivial earned
  | beside graph _ _ earned => exact graph ▸ earned

end Run

end RestGraph
