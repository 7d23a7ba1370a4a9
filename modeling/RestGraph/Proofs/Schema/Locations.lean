import RestGraph.Proofs.Graph.Telling
import RestGraph.Proofs.Schema.History
import RestGraph.Proofs.Schema.Substitutes

/-!
# Locations of warnings

Whatever is called and grafted, the warnings that are there in the end say where they belong by
paths that are paths of nodes then. Only those for properties that were turned may not: a property
whose value closes a cycle had another path when the warning was given.
-/

namespace RestGraph

variable {d : Document} {r : Run}

namespace Run

/-- The course of warnings and of the paths that they name. -/
def report (d : Document) : Course d where
  holds _ := True
  along := Tells
  preorder := inferInstance
  keeps _ _ := trivial
  registry {r s} notes _ := by
    refine ⟨?_, fun w mem => ?_⟩
    · rw [notes.graph]
      exact .refl _ _
    · rcases notes.warnings with same | ⟨i, _, inside, added⟩
      · exact .inl (same ▸ mem)
      · rw [added] at mem
        refine (List.mem_append.mp mem).imp_right fun new => ?_
        rw [List.mem_singleton.mp new, notes.graph]
        exact .inl ⟨i, inside, rfl⟩
  visit _ h := Build.visit_tells.ends h

instance : (report d).Enduring where
  fails _ h := Build.visit_tells.fails h

instance : (report d).Bookless := ⟨fun graph _ _ warnings => .of_same graph warnings⟩

def reporting (d : Document) : OpenRegime d where
  toCourse := report d
  consolidate _ := Build.coming_consolidate_of (S := report d)
    (fun _ => .modify { Node.Keeps.refl _ with consolidated := fun _ => rfl } rfl)
    fun _ _ => .modify { Node.Keeps.refl _ with } rfl
  frames := .of_same rfl rfl

instance : (reporting d).toCourse.Enduring := inferInstanceAs (report d).Enduring

/-- Whatever calls and grafts were made, and whether they failed or not. -/
theorem Touched.warnings_located (touched : r.Touched d) : ∀ w ∈ r.warnings, r.graph.Locates w := by
  have tells : (ofDocument d).Tells r := by
    induction touched with
    | start => exact refl_of _ _
    | call c _ before => exact trans_of _ before (c.after_along (S := reporting d) trivial)
    | graftSchema _ _ _ before => exact trans_of _ before Build.graftSchema_tells
    | graftProp _ _ _ inside _ before => exact trans_of _ before (Build.graftProp_tells inside)
  exact fun w mem => (tells.warnings w mem).resolve_left (List.not_mem_nil (a := w))

end Run

open WarningKind in
/-- Rows that do not say what they hold, a node that closes a cycle and an answer that is
missing. -/
theorem untold_located : ∃ r : Run, r.Touched .untold ∧
    (∀ k ∈ [circularReference, missingItems, syntheticResponse], ∃ w ∈ r.warnings, w.kind = k) ∧
    ∀ w ∈ r.warnings, r.graph.Locates w := by
  have walked : Run.Touched .untold _ := (Run.Touched.start.call (.wildcard 0 .deep)).call
    (.wildcard 1 .deep)
  have last := walked.graftProp "rows" (.typeSchema "array") false (show 0 < _ by decide +kernel)
  exact ⟨_, last, by decide +kernel, last.warnings_located⟩

/-- The warning about the field names a path that no node has: the field was turned after it. -/
theorem chained_mislocated : ∃ r : Run, r.Answered .chained ∧
    ∃ w ∈ r.warnings, w.location = "get:/a>res:200>ref:#/c/s/Node>obj:Node>prop:obj:next" ∧
      ∀ i < r.graph.size, w.location ≠ r.graph.pathOf i := by
  have answered : Run.Answered .chained _ :=
    Run.Answered.start.after (c := .wildcard 0 .deep) (by decide +kernel)
  exact ⟨_, answered, by decide +kernel⟩

end RestGraph
