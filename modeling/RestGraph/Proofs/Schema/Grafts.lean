import RestGraph.Proofs.Graph.Grafting
import RestGraph.Proofs.Schema.Responding

/-!
# Grafted properties

A client may add a property of its own to an object, or an element to an array property. The
property is attached whatever its fragment looks like; only a reference without a target, met on the
way through the elements of the fragment, keeps it out.
-/

namespace RestGraph

variable {d : Document} {r s : Run} {o : Nat}

namespace Run

/-- Wherever a client has come to: a property that it grafts onto an object or an array property is
attached, or it fails for a reference without a target; never for its shape. -/
theorem Touched.graftProp_adopts_or_lacks (touched : r.Touched d)
    (owner : (r.graph.node o).kind.isOwner = true) (name : String) (schema : Json)
    (required : Bool) :
    ¬d.Lacks schema ∧
        (∃ i s, Ends (Build.graftProp d o name schema required) r i s ∧
          r.graph.Adopts o name i s.graph) ∨
      d.Lacks schema ∧ ∃ pointer path s,
        (Build.graftProp d o name schema required).run r =
        (.error (.reference pointer path), s) := by
  have inside : o < r.graph.size := Graph.lt_size_of_ne fun nowhere => by
    rw [nowhere] at owner
    cases owner
  have lasts := touched.responds.fromProp o name schema required
  have grafts := Ends.run_bind_of_ends (f := fun _ => Build.fromProp d o name schema required)
    (Build.ends_widen r schema)
  rcases run : (Build.graftProp d o name schema required).run r with ⟨e | i, s⟩
  · right
    have run' : (Build.fromProp d o name schema required).run (r.widen schema) = (.error e, s) := by
      rwa [Build.graftProp, grafts] at run
    have fails : FailsFor (Fault.IsGap d schema) (Build.fromProp d o name schema required)
        (r.widen schema) :=
      .bind (.of_ends (Ends.get_iff.mpr ⟨rfl, rfl⟩)) fun _ => Build.failsFor_propWithin
    rcases fails e s run' with rfl | ⟨x, pointer, path, rfl, nests, names, gap⟩
    · exact absurd (congrArg Prod.fst run) lasts
    · exact ⟨⟨x, pointer, nests, names, gap⟩, pointer, path, s, rfl⟩
  · left
    have ends : Ends (Build.fromProp d o name schema required) (r.widen schema) i s := by
      rwa [Build.graftProp, grafts] at run
    obtain ⟨_, _, got, ends'⟩ := Ends.bind_iff.mp ends
    obtain ⟨S, mem, sealed⟩ := Build.propWithin_sealed ends' fun none => absurd rfl none
    obtain ⟨rfl, rfl⟩ := Ends.get_iff.mp got
    have adopts : (r.widen schema).graph.Adopts o name i s.graph :=
      Build.propWithin_adopts ends' inside
    exact ⟨(sealed.mono fun _ none => none rfl).not_lacks mem, i, s, run, adopts⟩

end Run

/-- Rows whose elements are rows. -/
def Document.ofRows : Document :=
  .answer (.objectSchema [("rows", .refSchema "Rows")])
    [("Rows", .arraySchema (.refSchema "Rows"))]

/-- An object takes more rows, and the rows do not take an array of what is not there. -/
theorem ofRows_adopts : ∃ r : Run, r.Touched .ofRows ∧
    (∃ i s, Ends (Build.graftProp .ofRows 2 "more" (.refSchema "Rows") true) r i s ∧
      r.graph.Adopts 2 "more" i s.graph) ∧
    Document.ofRows.Lacks (.arraySchema (.refSchema "Gone")) := by
  have touched : Run.Touched .ofRows _ := .call (.visit 0) .start
  refine ⟨_, touched, ?_, ?_⟩
  · have outcome := touched.graftProp_adopts_or_lacks (o := 2) (by decide +kernel) "more"
      (.refSchema "Rows") true
    refine (outcome.resolve_right fun ⟨_, pointer, path, s, fails⟩ => ?_).2
    have passes : Ends.passes (Build.graftProp .ofRows 2 "more" (.refSchema "Rows") true)
        (Call.after .ofRows (.ofDocument .ofRows) (.visit 0)) (fun _ _ => true) = true := by
      decide +kernel
    obtain ⟨i, t, ends, -⟩ := Ends.of_passes passes
    cases fails.symm.trans ends
  · have outcome := touched.graftProp_adopts_or_lacks (o := 3) (by decide +kernel) "lost"
      (.arraySchema (.refSchema "Gone")) false
    refine (outcome.resolve_left fun ⟨_, i, s, ends, _⟩ => ?_).1
    have passes : Ends.passes _ _ (fun _ _ => true) = true := Ends.passes_of ends rfl
    exact absurd passes (by decide +kernel)

end RestGraph
