import RestGraph.Proofs.Graph.Drawn
import RestGraph.Proofs.Graph.Roots
import RestGraph.Proofs.Graph.Trails
import RestGraph.Proofs.Graph.Visiting

/-!
# Reached runs

What runs come to that only visit. There a node that was visited has children unless it is a leaf,
since its fragment names some.
-/

namespace RestGraph

variable {d : Document} {r s : Run} {i : Nat}

/-! ## What shapes say -/

/-- An object is synthetic when its schema declares no properties. -/
theorem Shape.synthetic_of_object {schema : Json} {synthetic : Bool}
    (shape : ofSchema schema = .object synthetic) : synthetic = !declaresProperties schema := by
  unfold ofSchema structured plain at shape
  dsimp only at shape
  repeat' split at shape
  all_goals cases shape
  rfl

/-- An object that is not synthetic declares properties. -/
theorem Shape.declaresProperties_of_object {schema : Json}
    (shape : ofSchema schema = .object false) : declaresProperties schema = true := by
  simpa using synthetic_of_object shape

theorem Shape.hasBranches_of_composed {schema : Json}
    (shape : ofSchema schema = .composed) : hasBranches schema "allOf" = true := by
  unfold ofSchema structured plain at shape
  dsimp only at shape
  repeat' split at shape
  all_goals first
    | assumption
    | exact Shape.noConfusion shape

theorem Shape.hasBranches_of_union {schema : Json} (shape : ofSchema schema = .union) :
    hasBranches schema "oneOf" = true ∨ hasBranches schema "anyOf" = true := by
  unfold ofSchema structured plain at shape
  dsimp only at shape
  repeat' split at shape
  all_goals first
    | exact Shape.noConfusion shape
    | exact (Bool.or_eq_true _ _).mp ‹_›

theorem branchesOf_ne_nil {schema : Json} {keys : List String} {key : String} (mem : key ∈ keys)
    (branches : Shape.hasBranches schema key = true) : branchesOf schema keys ≠ [] := by
  obtain ⟨own, found⟩ := Option.isSome_iff_exists.mp branches
  have declared : (keys.findSome? (Shape.branches? schema)).getD [] ≠ [] := by
    cases here : keys.findSome? (Shape.branches? schema) with
    | none =>
      rw [List.findSome?_eq_none_iff.mp here key mem] at found
      cases found
    | some bs =>
      obtain ⟨_, -, made⟩ := List.exists_of_findSome?_eq_some here
      have full := (Option.filter_eq_some_iff.mp made).2
      rintro none
      rw [Option.getD_some] at none
      rw [none] at full
      cases full
  unfold branchesOf
  dsimp only
  split
  · exact declared
  · exact List.append_ne_nil_of_left_ne_nil declared _

/-- A schema that declares properties gives some. -/
theorem sortedProperties_ne_nil {schema : Json}
    (declares : Shape.declaresProperties schema = true) : sortedProperties schema ≠ [] := by
  unfold sortedProperties
  unfold Shape.declaresProperties at declares
  cases found : (schema.get? "properties").bind Json.object? with
  | none =>
    rw [found] at declares
    cases declares
  | some members =>
    rw [found, Option.any_some, Bool.not_eq_true'] at declares
    rw [Option.getD_some]
    intro none
    have empty := (Text.sortByName_perm Prod.fst members).symm
    rw [none] at empty
    rw [empty.eq_nil] at declares
    cases declares

/-- A keyed schema is of the kind that its fragment says. -/
theorem Graph.Derived.shape_of_isKeyed {g : Graph} (derived : g.Derived d) (forest : g.Forest)
    (inside : i < g.size) (keyed : (g.node i).kind.isKeyed = true) :
    Build.kindOfShape? (Shape.ofSchema (g.node i).schema) = some (g.node i).kind := by
  refine (derived.shape forest inside ?_ (Kind.not_isBare_of_isKeyed keyed)).resolve_left ?_
  · cases kind : (g.node i).kind <;> rw [kind] at keyed <;> first | rfl | cases keyed
  · rintro ⟨pointer, -, kind⟩
    rw [kind] at keyed
    cases keyed

/-! ## Runs -/

/-- What visits come to from the first graph. -/
structure Run.Reached (d : Document) (r : Run) : Prop where
  moves : (Graph.ofDocument d).Moves d r.graph
  served : ∀ o, r.graph.ServedAt o
  fed : ∀ o, r.graph.FedAt o

namespace Run.Reached

/-- The run of a document has reached itself. -/
theorem ofDocument (d : Document) : (Run.ofDocument d).Reached d where
  moves := .refl
  served o tag visited := by
    have inside : o < (Graph.ofDocument d).size := Graph.lt_size_of_ne fun nowhere => by
      rw [show (Run.ofDocument d).graph.node o = Node.nowhere from nowhere] at tag
      cases tag
    rw [show ((Run.ofDocument d).graph.node o).visited = false from
      (Graph.unvisited_ofDocument d o inside).2] at visited
    cases visited
  fed o inside due _ := by
    have fresh := Graph.unvisited_ofDocument d o inside
    rcases due with eager | visited
    · rw [show (Run.ofDocument d).graph = Graph.ofDocument d from rfl,
        Kind.isEager_of_operation fresh.1] at eager
      cases eager
    · rw [show ((Run.ofDocument d).graph.node o).visited = false from fresh.2] at visited
      cases visited

theorem sound (reached : r.Reached d) : r.graph.Sound :=
  (Graph.ofDocument_sound d).moves reached.moves

/-- A run that is reached has a graph derived from the document. -/
theorem derived (reached : r.Reached d) : r.graph.Derived d :=
  (Graph.ofDocument_derived d).moves (Graph.ofDocument_sound d) reached.moves

/-- A run that is reached has the roots of the document. -/
theorem rooted (reached : r.Reached d) : r.graph.Rooted :=
  (Graph.ofDocument_rooted d).moves reached.moves

theorem visits (reached : r.Reached d) (visits : r.Visits d s) : s.Reached d where
  moves := reached.moves.trans visits.moves
  served o := visits.served (reached.served o)
  fed o := visits.fed (reached.fed o)

/-- In a run that is reached, no open node is hollow. -/
theorem isHollow_of_not_isLeaf (reached : r.Reached d) (inside : i < r.graph.size)
    (open_ : (r.graph.node i).isLeaf = false) : (r.graph.node i).isHollow = false := by
  have made := reached.derived.shape_of_isKeyed reached.sound inside
  rw [Node.isLeaf] at open_
  rw [Node.isHollow]
  cases kind : (r.graph.node i).kind with
  | object synthetic =>
    rw [kind] at made open_
    have made := made rfl
    cases shape : Shape.ofSchema (r.graph.node i).schema <;> rw [shape] at made <;> cases made
    obtain rfl : synthetic = false := open_
    exact List.isEmpty_eq_false_iff.mpr
      (sortedProperties_ne_nil (Shape.declaresProperties_of_object shape))
  | composed =>
    rw [kind] at made
    have made := made rfl
    cases shape : Shape.ofSchema (r.graph.node i).schema <;> rw [shape] at made <;> cases made
    exact List.isEmpty_eq_false_iff.mpr
      (branchesOf_ne_nil List.mem_cons_self (Shape.hasBranches_of_composed shape))
  | union =>
    rw [kind] at made
    have made := made rfl
    cases shape : Shape.ofSchema (r.graph.node i).schema <;> rw [shape] at made <;> cases made
    rcases Shape.hasBranches_of_union shape with first | second
    · exact List.isEmpty_eq_false_iff.mpr (branchesOf_ne_nil List.mem_cons_self first)
    · exact List.isEmpty_eq_false_iff.mpr
        (branchesOf_ne_nil (List.mem_cons_of_mem _ List.mem_cons_self) second)
  | scalar | enum | circular =>
    rw [kind] at open_
    cases open_
  | property shape =>
    cases shape <;> first | rfl | (rw [kind] at open_; cases open_)
  | _ => rfl

/-- A node that was visited and is no leaf has a child. -/
theorem children_ne_nil (reached : r.Reached d) (inside : i < r.graph.size)
    (visited : (r.graph.node i).visited = true) (open_ : (r.graph.node i).isLeaf = false) :
    (r.graph.node i).children ≠ [] :=
  reached.fed i inside (.inr visited) (reached.isHollow_of_not_isLeaf inside open_)

end Run.Reached

end RestGraph
