import RestGraph.Proofs.Graph.Acting

/-!
# What visits retain

A property of graphs is retained by every visit, whatever its outcome, if it is retained as a node
is attached, as a property turns out to close a cycle, as a node is marked, and as an object gets
its fields. Nothing is asked of the run, nor of the handles.
-/

namespace RestGraph

variable {d : Document} {I : Graph → Prop} {r s : Run} {p i : Nat} {x : Seed} {name : String}
  {schema : Json} {required : Bool}

/-- The property is not lost. -/
def Run.Retains (I : Graph → Prop) (r s : Run) : Prop := I r.graph → I s.graph

instance : IsPreorder Run (Run.Retains I) where
  refl _ := id
  trans _ _ _ first second := second ∘ first

/-- What is retained as nodes are made. -/
structure Graph.Retained (I : Graph → Prop) : Prop where
  attach : ∀ {g : Graph} {p : Nat} {x : Seed}, I g → I (g.attach p x)
  turn : ∀ {g : Graph} {i : Nat} {k : Kind}, I g → I (g.modify i fun n => { n with kind := k })

/-- What is retained as nodes are visited. -/
structure Graph.Enduring (d : Document) (I : Graph → Prop) : Prop extends Retained I where
  mark : ∀ {g : Graph} {i : Nat}, (g.node i).visited = false → (g.node i).kind.tag ≠ .object → I g →
    I (g.modify i fun n => { n with visited := true })
  object : ∀ {r : Run} {i : Nat} {tag : Tag}, (r.graph.node i).visited = false →
    (r.graph.node i).kind.tag = .object → Along (Run.Retains I) (do
      Build.modifyNode i fun n => { n with visited := true }
      Build.framed i tag (Build.visitObject d i)) r

namespace Build

/-! ## Making nodes -/

section Retained

variable (retained : Graph.Retained I)

include retained

/-- Additions retain what attaching retains. -/
theorem retains_of_adds (adds : r.Adds (fun _ => True) s) : r.Retains I s := by
  induction adds with
  | refl => exact id
  | tail _ addition ih =>
    refine fun holds => ?_
    cases addition with
    | note notes => exact notes.graph ▸ ih holds
    | attach | refer | standIn => exact retained.attach (ih holds)

/-- Building a schema retains what making nodes retains. -/
theorem fromSchema_retains : Along (Run.Retains I) (fromSchema p schema) r :=
  retains_of_adds retained (fromSchema_adds trivial .all)

theorem attach_retains : Along (Run.Retains I) (attach p x) r :=
  Along.get.bind fun _ _ => Along.bind (.modify retained.attach) fun _ _ => .pure _

theorem wrapSchema_retains : Along (Run.Retains I) (wrapSchema p schema required) r :=
  (fromSchema_retains retained).bind fun _ _ => along_node.bind fun _ _ => by
    split
    · exact .modify retained.turn
    · exact .pure _

theorem propWithin_retains {depth : Nat} {followed : List (String × Nat)} :
    Along (Run.Retains I) (propWithin d depth p name schema required followed) r := by
  induction depth generalizing p name schema required followed r with
  | zero => exact .throw _
  | succ depth ih =>
    rw [propWithin]
    split
    · exact retains_of_adds retained (circularElement_adds trivial .all)
    · refine along_node.bind fun _ _ => along_decisive.bind fun _ _ => ?_
      dsimp only
      refine (attach_retains retained).bind fun _ _ => ?_
      split
      · exact .pure _
      · exact .pure _
      · split
        · exact ih.discard.bind fun _ _ => .pure _
        · exact Along.bind (retains_of_adds retained
            (placeholderElement_adds trivial)) fun _ _ => .pure _
      all_goals exact (wrapSchema_retains retained).bind fun _ _ => .pure _

/-- Building a property retains what making nodes retains. -/
theorem fromProp_retains : Along (Run.Retains I) (fromProp d p name schema required) r :=
  Along.get.bind fun _ _ => propWithin_retains retained

theorem graftSchema_retains : Along (Run.Retains I) (graftSchema p schema) r :=
  Along.bind (.modify id) fun _ _ => fromSchema_retains retained

theorem graftProp_retains : Along (Run.Retains I) (graftProp d p name schema required) r :=
  Along.bind (.modify id) fun _ _ => fromProp_retains retained

end Retained

/-! ## Visiting -/

section Kinds

variable (retained : Graph.Retained I) {visitChild : Nat → Build Unit}
  (visits : ∀ {i r}, Along (Run.Retains I) (visitChild i) r)

include retained visits

theorem attachPart_retains : Along (Run.Retains I) (do visitChild (← attach p x)) r :=
  (attach_retains retained).bind fun _ _ => visits

theorem enterSchema_retains : Along (Run.Retains I) (enterSchema visitChild i schema) r :=
  (fromSchema_retains retained).bind fun _ _ => visits

theorem visitParameter_retains {operation : String} {param : Json} :
    Along (Run.Retains I) (visitParameter visitChild i operation param) r := by
  unfold visitParameter
  dsimp only
  split
  · exact .pure _
  · exact attachPart_retains retained visits

theorem visitRequest_retains {operation path : String} {raw : Json} :
    Along (Run.Retains I) (visitRequest d visitChild i operation path raw) r := by
  refine along_deref.bind fun _ _ => ?_
  split
  · exact .pure _
  · exact attachPart_retains retained visits

theorem visitResponse_retains {operation path : String} {responses : Json} :
    Along (Run.Retains I) (visitResponse d visitChild i operation path responses) r := by
  refine along_chosenResponse.bind fun {chosen _} _ _ => ?_
  cases chosen with
  | some => exact attachPart_retains retained visits
  | none => exact Along.bind (.modify id) fun _ _ => attachPart_retains retained visits

theorem visitOperation_retains {method : Method} {shared : List Json} :
    Along (Run.Retains I) (visitOperation d visitChild i method shared) r := by
  refine along_node.bind fun _ _ => along_pathOf.bind fun _ _ =>
    along_mergeParameters.bind fun _ _ =>
    Along.bind (.forM fun _ _ => visitParameter_retains retained visits) fun _ _ => ?_
  split
  · split
    · exact (visitRequest_retains retained visits).bind fun _ _ =>
        visitResponse_retains retained visits
    · exact visitResponse_retains retained visits
  · exact visitResponse_retains retained visits

theorem visitKind_retains {kind : Kind} (other : kind.tag ≠ .object) :
    Along (Run.Retains I) (visitKind d visitChild i kind) r := by
  have branches : ∀ {keys}, Along (Run.Retains I) (visitBranches visitChild i keys) r :=
    along_node.bind fun _ _ => .forM fun _ _ => enterSchema_retains retained visits
  have children : Along (Run.Retains I) (visitChildren visitChild i) r :=
    along_node.bind fun _ _ => .forM fun _ _ => visits
  have payload : Along (Run.Retains I) (visitPayload visitChild i) r :=
    along_node.bind fun _ _ => enterSchema_retains retained visits
  cases kind with
  | operation => exact visitOperation_retains retained visits
  | param => exact along_node.bind fun _ _ => enterSchema_retains retained visits
  | body | response => exact payload
  | reference =>
    exact along_pathOf.bind fun _ _ => (Along.liftExcept _).bind fun _ _ =>
      enterSchema_retains retained visits
  | object => exact absurd rfl other
  | composed | union => exact branches
  | array | property => exact children
  | scalar | enum | circular => exact .pure _

end Kinds

/-- A visit retains what endures, at any depth. -/
theorem visitWithin_retains {depth : Nat} (enduring : Graph.Enduring d I) :
    Along (Run.Retains I) (visitWithin d depth i) r := by
  induction depth generalizing i r with
  | zero => exact .throw _
  | succ depth ih =>
    refine along_node.bind fun {_ u} h _ => ?_
    obtain ⟨rfl, rfl⟩ := ends_node.mp h
    split
    · exact .pure _
    · next idle =>
      have free := Bool.eq_false_iff.mpr idle
      by_cases object : (r.graph.node i).kind.tag = .object
      · cases kind : (r.graph.node i).kind <;> rw [kind] at object <;> cases object
        exact enduring.object free (by rw [kind]; rfl)
      · have mark : Along (Run.Retains I) (modifyNode i fun n => { n with visited := true }) r :=
          .modify (enduring.mark free object)
        exact mark.bind fun _ _ =>
          along_framed (visitKind_retains enduring.toRetained ih object) id

/-- **A visit retains what endures, also where it fails.** -/
theorem visit_retains (enduring : Graph.Enduring d I) : Along (Run.Retains I) (visit d i) r :=
  Along.get.bind fun _ _ => visitWithin_retains enduring

end Build

end RestGraph
