import RestGraph.Proofs.Graph.Lineages

/-!
# Element chains

The elements of arrays within arrays are built at once, and pass through no reference node. In such
a chain no reference is followed a second time, so that a cycle of array components is closed.
-/

namespace RestGraph

variable {d : Document}

/-- Only arrays are of the kind of array properties. -/
theorem Kind.Turns.array {k k' : Kind} (turns : k.Turns k') {required : Bool}
    (array : k' = .property .array required) : k = .property .array required := by
  rcases turns with rfl | ⟨_, _, -, -, rfl⟩
  · exact array
  · cases array

namespace Graph

variable {g h : Graph} {i p a c : Nat} {s : Seed}

/-- The reference that an array property was made from and whose array it is. -/
def hopAt? (g : Graph) (i : Nat) : Option String :=
  match (g.node i).kind with
  | .property .array _ => g.pointerAt? i
  | _ => none

theorem hopAt?_eq_some {pointer : String} : g.hopAt? i = some pointer ↔
    (∃ required, (g.node i).kind = .property .array required) ∧ g.pointerAt? i = some pointer := by
  unfold hopAt?
  split
  · next required kind => exact ⟨fun at_ => ⟨⟨required, kind⟩, at_⟩, And.right⟩
  · next other =>
    constructor
    · intro none
      cases none
    · rintro ⟨⟨required, kind⟩, -⟩
      exact absurd kind (other required)

/-- Above an array property, no element of the chain has its reference. -/
def Spaced (g : Graph) : Prop :=
  ∀ ⦃p c pointer⦄, c ∈ (g.node p).children → g.hopAt? c = some pointer →
    ∀ a ∈ g.elementsAbove p, g.pointerAt? a ≠ some pointer

theorem lt_size_of_mem_elementsAbove (inside : i < g.size) (mem : a ∈ g.elementsAbove i) :
    a < g.size := by
  rcases List.mem_cons.mp (mem_elementsAbove mem).1 with rfl | above
  · exact inside
  · exact (lt_of_mem_ancestors above).trans inside

/-- What was spaced stays so. -/
theorem Spaced.extend (spaced : g.Spaced) (forest : g.Forest) (step : g.Extends h)
    (child : c ∈ (g.node p).children) {pointer : String} (hop : h.hopAt? c = some pointer) :
    ∀ a ∈ h.elementsAbove p, h.pointerAt? a ≠ some pointer := by
  have inside := lt_size_of_child child
  have lt := (forest.below child).2
  obtain ⟨⟨required, kind⟩, at_⟩ := hopAt?_eq_some.mp hop
  have old : g.hopAt? c = some pointer := hopAt?_eq_some.mpr
    ⟨⟨required, (step.keeps lt).kind.array kind⟩, (step.pointerAt? forest lt).symm.trans at_⟩
  intro a mem
  rw [step.elementsAbove inside] at mem
  rw [step.pointerAt? forest (lt_size_of_mem_elementsAbove inside mem)]
  exact spaced child old a mem

theorem Spaced.attach (spaced : g.Spaced) (forest : g.Forest) (step : Step d g (g.attach p s))
    (inside : p < g.size) (guarded : g.Guarded p s) : (g.attach p s).Spaced := by
  intro q c pointer child hop
  rcases child_of_attach inside child with old | ⟨rfl, rfl⟩
  · exact spaced.extend forest step.extends old hop
  · have last : ((g.attach q s).node q).children = (g.node q).children ++ [g.size] := by
      simp [inside]
    obtain ⟨⟨required, kind⟩, at_⟩ := hopAt?_eq_some.mp hop
    rw [node_attach_size inside] at kind
    rw [pointerAt?, (forest.step step).sourceOf?_of_last last,
      (step.extends.keeps inside).propAt?] at at_
    obtain ⟨schema, source, ref⟩ := Option.bind_eq_some_iff.mp at_
    obtain ⟨⟨name, _⟩, here, rfl⟩ := Option.map_eq_some_iff.mp source
    have kind : s.kind = .property .array required := kind
    intro a mem
    rw [step.extends.elementsAbove inside] at mem
    rw [step.extends.pointerAt? forest (lt_size_of_mem_elementsAbove inside mem)]
    exact guarded.unrepeated (by rw [kind]; rfl) (by rw [kind]; rfl) here ref a mem

/-- A step keeps the arrays apart. -/
theorem Spaced.step (spaced : g.Spaced) (forest : g.Forest) (step : Step d g h) : h.Spaced := by
  have same : h.size = g.size → h.Spaced := fun size p c pointer child hop => by
    obtain ⟨place, at_⟩ := List.mem_iff_getElem?.mp child
    rcases step.child at_ with old | ⟨_, -, -, -, -, rfl⟩
    · exact spaced.extend forest step.extends (List.mem_of_getElem? old) hop
    · exact absurd ((forest.step step).below child).2 (by omega)
  cases step with
  | attach inside admits room due sprouts guarded =>
    exact spaced.attach forest (.attach inside admits room due sprouts guarded) inside guarded
  | change move size => exact same size
  | fill => exact same size_modify

theorem Spaced.steps (spaced : g.Spaced) (forest : g.Forest) (steps : Steps d g h) : h.Spaced := by
  induction steps with
  | refl => exact spaced
  | tail before step ih => exact ih.step (forest.steps before) step

/-- No operation has children yet. -/
@[simp]
theorem children_ofDocument (d : Document) (i : Nat) : ((ofDocument d).node i).children = [] := by
  have childless : ∀ (g : Graph) taken (entries : List OperationEntry),
      (∀ i, (g.node i).children = []) →
      ∀ i, ((g.addOperations taken entries).node i).children = [] := by
    intro g taken entries bare
    induction entries generalizing g taken with
    | nil => exact bare
    | cons e rest ih =>
      refine ih _ _ fun i => ?_
      rw [part_addRoot Node.children rfl]
      exact bare i
  exact childless empty [] d.operations (fun i => by
    rw [node_of_size_le (Nat.zero_le _)]
    rfl) i

/-- Every node is an operation that was found in the description. -/
theorem ofDocument_lists (d : Document) (i : Nat) :
    (ofDocument d).node i = .nowhere ∨ d.Lists ((ofDocument d).node i) := by
  by_cases inside : i < (ofDocument d).size
  · refine .inr ((ofDocument_derived d).root inside ?_)
    cases parent : ((ofDocument d).node i).parent with
    | none => rfl
    | some p =>
      have child := (ofDocument_forest d).child parent
      rw [children_ofDocument] at child
      cases child
  · exact .inl (node_of_size_le (Nat.le_of_not_lt inside))

theorem ofDocument_spaced (d : Document) : (ofDocument d).Spaced := fun _ c _ child => by
  rw [children_ofDocument] at child
  cases child

/-- What every step keeps. -/
structure Firm (d : Document) (g : Graph) : Prop where
  forest : g.Forest
  derived : g.Derived d
  rooted : g.Rooted
  lineal : g.Lineal
  spaced : g.Spaced
  fielded : g.Fielded

/-- Steps keep a graph firm. -/
theorem Firm.steps (firm : g.Firm d) (steps : Steps d g h) : h.Firm d where
  forest := firm.forest.steps steps
  derived := firm.derived.steps firm.forest steps
  rooted := firm.rooted.steps steps
  lineal := firm.lineal.steps firm.forest steps
  spaced := firm.spaced.steps firm.forest steps
  fielded := firm.fielded.steps firm.forest steps

/-- **The graph of a document starts firm.** -/
theorem ofDocument_firm (d : Document) : (ofDocument d).Firm d where
  forest := ofDocument_forest d
  derived := ofDocument_derived d
  rooted := ofDocument_rooted d
  lineal := ofDocument_lineal d
  spaced := ofDocument_spaced d
  fielded _ _ field := ((ofDocument_sound d).fields field).above

end Graph

end RestGraph
