import RestGraph.Proofs.Schema.Balance

/-!
# Gaps that are met once

A node counts as visited before its children are made, and goes on to when making them fails. So a
gap in a description is reported once for each node that comes upon it. A call that is made again
passes the node by, and takes the children that were made before the gap for all of them.
-/

namespace RestGraph

variable {α : Type} {d : Document} {r s t : Run} {e e' : Fault} {i x y : Nat}

/-- The fault is that of a visit to a node which was not visited before. From then on the node
counts as visited, so that no visit of it fails. -/
structure Run.Forgoes (d : Document) (r : Run) (e : Fault) (s : Run) (x : Nat) : Prop where
  visit : ∃ u, r.Works u ∧ (u.graph.node x).visited = false ∧
    (Build.visit d x).run u = (.error e, s)
  again : ∀ {t}, s.Works t → Ends (Build.visit d x) t ⟨⟩ t

/-- Two faults that are met one after the other are those of two nodes. -/
theorem Run.Forgoes.ne (first : r.Forgoes d e s x) (second : s.Forgoes d e' t y) : y ≠ x := by
  rintro rfl
  obtain ⟨u, works, -, fails⟩ := second.visit
  have ends : (Build.visit d y).run u = (.ok ⟨⟩, u) := first.again works
  rw [fails] at ends
  cases ends

namespace Build

/-- Every gap that the step comes upon is forgone. -/
def MeetsOnce (d : Document) (m : Build α) : Prop :=
  ∀ ⦃r e s⦄, m.run r = (.error e, s) → e.isGap = true → ∃ x, r.Forgoes d e s x

theorem not_visited_of_fails (h : (visit d i).run r = (.error e, s)) :
    (r.graph.node i).visited = false :=
  Bool.eq_false_iff.mpr fun visited => by
    have ends : (visit d i).run r = (.ok ⟨⟩, r) := ends_visit_of_visited visited
    rw [h] at ends
    cases ends

/-- A node that fails to be visited counts as visited. -/
theorem isDone_of_fails (h : (visit d i).run r = (.error e, s)) : s.graph.IsDone i := by
  have done := isDone_visit (d := d) (Graph.lt_size_of_not_visited (not_visited_of_fails h))
  rwa [h] at done

/-- What comes along with the course of work meets a gap once. -/
theorem meetsOnce_of_coming {m : Build α} (coming : Coming (Run.labour d) id m) :
    MeetsOnce d m := fun r e s h gap => by
  obtain ⟨x, u, works, fails⟩ := (coming (s := r) trivial).gaps h gap
  exact ⟨x, ⟨u, works, not_visited_of_fails fails, fails⟩,
    fun along => ends_visit_of_visited (along.isDone (isDone_of_fails fails)).2⟩

theorem visit_again (h : (visit d i).run r = (.error e, s)) : Ends (visit d i) s ⟨⟩ s :=
  ends_visit_of_visited (isDone_of_fails h).2

theorem childrenOf_again (h : (childrenOf d i).run r = (.error e, s)) :
    Ends (childrenOf d i) s (s.graph.node i).children s := by
  have visited : (s.graph.node i).visited = true := by
    rw [childrenOf, Ends.run_bind] at h
    rcases here : (visit d i).run r with ⟨e' | _, u⟩ <;> rw [here] at h
    · cases h
      exact (isDone_of_fails here).2
    · cases h
  exact Ends.bind_iff.mpr ⟨_, s, ends_visit_of_visited visited,
    Ends.bind_iff.mpr ⟨_, s, ends_node.mpr ⟨rfl, rfl⟩, Ends.pure_iff.mpr ⟨rfl, rfl⟩⟩⟩

/-- Once the node itself is visited, the mark is set before the branches are. -/
theorem consolidated_of_fails (visited : (r.graph.node i).visited = true)
    (h : (consolidate d i).run r = (.error e, s)) : (s.graph.node i).consolidated = true := by
  by_cases merged : (r.graph.node i).consolidated = true
  · rw [consolidate, Ends.run_bind_of_ends (ends_node.mpr ⟨rfl, rfl⟩), if_pos merged] at h
    cases h
  · let marked := r.onGraph fun g => g.modify i fun n => { n with consolidated := true }
    have inside : i < r.graph.size := Graph.lt_size_of_ne fun nowhere => by
      rw [nowhere] at merged
      exact merged rfl
    have mark : (marked.graph.node i).consolidated = true := by
      change ((r.graph.modify i _).node i).consolidated = true
      simp [inside]
    rw [consolidate, Ends.run_bind_of_ends (ends_node.mpr ⟨rfl, rfl⟩), if_neg merged,
      Ends.run_bind_of_ends (ends_visit_of_visited visited),
      Ends.run_bind_of_ends (show Ends _ r ⟨⟩ marked from ends_modifyNode.mpr rfl)] at h
    have works := (coming_merge (S := Run.labour d) (i := i)
      (fun _ _ => .single (.modify _ fun _ => ⟨id, id⟩)) (s := marked) trivial).along trivial
    rw [Along, h] at works
    exact (Run.Works.marks works (Graph.size_modify.symm ▸ inside)).2.consolidated mark

theorem consolidate_again (visited : (r.graph.node i).visited = true)
    (h : (consolidate d i).run r = (.error e, s)) :
    Ends (consolidate d i) s ((s.consumedBy? i).getD []) s := by
  refine Ends.bind_iff.mpr ⟨_, s, ends_node.mpr ⟨rfl, rfl⟩, ?_⟩
  rw [if_pos (consolidated_of_fails visited h)]
  exact Ends.bind_iff.mpr ⟨_, s, Ends.get_iff.mpr ⟨rfl, rfl⟩, Ends.pure_iff.mpr ⟨rfl, rfl⟩⟩

end Build

open Build in
/-- No gap is met twice. A call that is made again answers with what was made before the gap, unless
it comes upon a gap of another node. -/
structure Document.ForgoesGaps (d : Document) : Prop where
  visit : ∀ i, MeetsOnce d (visit d i)
  expand : ∀ i, MeetsOnce d (childrenOf d i)
  resolveLeaves : ∀ path, MeetsOnce d (resolveLeaves d path)
  collect : ∀ selections, MeetsOnce d (collect d selections)
  consolidate : ∀ i, MeetsOnce d (consolidate d i)
  /-- A call that is made again, whichever it is, may fail at another node only. -/
  apart : ∀ {r s t : Run} {e e' x y}, r.Forgoes d e s x → s.Forgoes d e' t y → y ≠ x
  visitAgain : ∀ {i r e s}, (Build.visit d i).run r = (.error e, s) → Ends (Build.visit d i) s ⟨⟩ s
  expandAgain : ∀ {i r e s}, (childrenOf d i).run r = (.error e, s) →
    Ends (childrenOf d i) s (s.graph.node i).children s
  /-- Merging a node that was visited fails once at most. -/
  consolidateAgain : ∀ {i r e s}, (r.graph.node i).visited = true →
    (Build.consolidate d i).run r = (.error e, s) →
    Ends (Build.consolidate d i) s ((s.consumedBy? i).getD []) s

/-- Whatever the run before the first call. -/
theorem Document.forgoesGaps (d : Document) : d.ForgoesGaps where
  visit _ := Build.meetsOnce_of_coming Build.coming_visit
  expand _ := Build.meetsOnce_of_coming Build.coming_childrenOf
  resolveLeaves _ := Build.meetsOnce_of_coming Build.coming_resolveLeaves
  collect _ := Build.meetsOnce_of_coming Build.coming_collect
  consolidate i := Build.meetsOnce_of_coming ((Run.labouring d).consolidate i)
  apart := Run.Forgoes.ne
  visitAgain := Build.visit_again
  expandAgain := Build.childrenOf_again
  consolidateAgain := Build.consolidate_again

/-- The second of two fields is of a component that is missing. -/
def Document.partial : Document :=
  .answer (.objectSchema [("x", .typeSchema "string"), ("y", .refSchema "Gone")]) []

/-- Collecting all leaves fails, and then collects the first of the two fields. -/
theorem partial_collects : ∃ pointer path s c t,
    (Build.collect .partial ["get:/a>**"]).run (.ofDocument .partial) =
      (.error (.reference pointer path), s) ∧
    Ends (Build.collect .partial ["get:/a>**"]) s c t ∧ c.leaves.length = 1 := by
  have run : (match (Build.collect .partial ["get:/a>**"]).run (.ofDocument .partial) with
      | (.error (.reference _ _), s) =>
        Ends.passes (Build.collect .partial ["get:/a>**"]) s fun c _ => c.leaves.length == 1
      | _ => false) = true := by
    decide +kernel
  split at run
  · next pointer path s fails =>
    obtain ⟨c, t, collected, one⟩ := Ends.of_passes run
    exact ⟨pointer, path, s, c, t, fails, collected, eq_of_beq one⟩
  · cases run

end RestGraph
