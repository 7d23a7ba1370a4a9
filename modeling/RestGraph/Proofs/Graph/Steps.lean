import Mathlib.Data.List.TakeWhile
import RestGraph.Proofs.Graph.Origins
import RestGraph.Proofs.Graph.Sound

/-!
# Guarded steps

A move together with what was checked before it: a leaf that closes a cycle names a node on the way
up, and in a chain of elements no reference is followed twice.
-/

namespace RestGraph

variable {d : Document}

namespace Graph

variable {g h : Graph} {i p a : Nat} {s : Seed}

/-- The fragment that a property was made from, before its references were followed. -/
def sourceOf? (g : Graph) (i : Nat) : Option Json :=
  (g.node i).parent.bind fun p =>
    ((g.node p).propAt? ((g.node p).children.idxOf i)).map Prod.snd

/-- The reference that a property was made from. -/
def pointerAt? (g : Graph) (i : Nat) : Option String := (g.sourceOf? i).bind Json.ref?

/-- A property and the properties that it is an element of, nearest first. -/
def elementsAbove (g : Graph) (i : Nat) : List Nat :=
  (i :: g.ancestors i).takeWhile fun a => (g.node a).isProperty

/-- What is checked before a node is attached. -/
structure Guarded (g : Graph) (p : Nat) (s : Seed) : Prop where
  closes : ∀ {t}, s.kind = .circular t → g.lineageHit? p s.discriminant = some t ∨
    t ∈ p :: g.ancestors p ∧ (g.node t).kind.isArray = true ∧ g.idAt t = s.discriminant
  unrepeated : s.kind.isProperty = true → s.kind.isCircular = false →
    ∀ {name schema pointer}, (g.node p).propAt? (g.node p).children.length = some (name, schema) →
      schema.ref? = some pointer → ∀ a ∈ g.elementsAbove p, g.pointerAt? a ≠ some pointer

/-- A move after the checks that it needs. Any properties below a node may become its fields. -/
inductive Step (d : Document) (g : Graph) : Graph → Prop
  | attach {p : Nat} {s : Seed} (inside : p < g.size)
      (admits : (g.node p).kind.admits s.kind = true)
      (room : (g.node p).kind.isNarrow = true → (g.node p).children = [])
      (due : (g.node p).kind.isEager = false → (g.node p).visited = true)
      (sprouts : Sprouts d g p s) (guarded : g.Guarded p s) : Step d g (g.attach p s)
  /-- No node is added. -/
  | change {h : Graph} (move : Move d g h) (size : h.size = g.size) : Step d g h
  | fill {i : Nat} {props : List (String × Nat)} (below : ∀ x ∈ props, i ∈ g.ancestors x.2) :
    Step d g (g.modify i fun n => { n with props })

def Steps (d : Document) : Graph → Graph → Prop := Relation.ReflTransGen (Step d)

/-- A step is a move, or it sets the fields of a node and leaves all else. -/
theorem Step.move (step : Step d g h) :
    Move d g h ∨ ∃ i props, h = g.modify i fun n => { n with props } := by
  cases step with
  | attach inside admits room due sprouts => exact .inl (.attach inside admits room due sprouts)
  | change move => exact .inl move
  | fill => exact .inr ⟨_, _, rfl⟩

theorem Step.extends (step : Step d g h) : g.Extends h := by
  obtain move | ⟨i, props, rfl⟩ := step.move
  · exact move.extends
  · exact .modify { Node.Keeps.refl _ with }

theorem Steps.extends (steps : Steps d g h) : g.Extends h := by
  induction steps with
  | refl => exact .refl g
  | tail _ step ih => exact ih.trans step.extends

theorem Forest.step (forest : g.Forest) (step : Step d g h) : h.Forest := by
  obtain move | ⟨i, props, rfl⟩ := step.move
  · exact forest.move move
  · by_cases inside : i < g.size
    · exact forest.mark inside { Node.Keeps.refl (g.node i) with } rfl rfl
    · rwa [modify_of_size_le (Nat.le_of_not_lt inside)]

theorem Forest.steps (forest : g.Forest) (steps : Steps d g h) : h.Forest := by
  induction steps with
  | refl => exact forest
  | tail _ step ih => exact ih.step step

/-- A step adds a child by attaching it, or none. -/
theorem Step.child {place c : Nat} (step : Step d g h)
    (child : (h.node p).children[place]? = some c) :
    (g.node p).children[place]? = some c ∨
      ∃ s, h = g.attach p s ∧ g.Sprouts d p s ∧ p < g.size ∧
        place = (g.node p).children.length ∧ c = g.size := by
  obtain move | ⟨i, props, rfl⟩ := step.move
  · exact move.child child
  · left
    rwa [part_modify Node.children (fun _ => by rfl)] at child

/-- A step makes no root. -/
theorem Step.root (step : Step d g h) (lt : i < h.size) (parent : (h.node i).parent = none) :
    i < g.size := by
  obtain move | ⟨i, props, rfl⟩ := step.move
  · exact move.root lt parent
  · rwa [size_modify] at lt

/-- Steps make no roots. -/
theorem Steps.root (steps : Steps d g h) (lt : i < h.size) (parent : (h.node i).parent = none) :
    i < g.size := by
  induction steps with
  | refl => exact lt
  | tail _ step ih =>
    have old := step.root lt parent
    exact ih old ((step.extends.keeps old).parent.symm.trans parent)

/-- What a step makes is derived from the document. -/
theorem Derived.step (derived : g.Derived d) (forest : g.Forest) (step : Step d g h) :
    h.Derived d := derived.grow forest step.extends step.child step.root

/-- What steps make is derived from the document. -/
theorem Derived.steps (derived : g.Derived d) (forest : g.Forest) (steps : Steps d g h) :
    h.Derived d := by
  induction steps with
  | refl => exact derived
  | tail before step ih => exact ih.step (forest.steps before) step

theorem Steps.trans {k : Graph} (first : Steps d g h) (second : Steps d h k) : Steps d g k :=
  Relation.ReflTransGen.trans first second

/-! ## Fields -/

/-- The fields of a node stand below it. -/
def Fielded (g : Graph) : Prop := ∀ ⦃i x⦄, x ∈ (g.node i).props → i ∈ g.ancestors x.2

/-- A node that is attached holds no field. -/
theorem Fielded.attach (fielded : g.Fielded) : (g.attach p s).Fielded := by
  intro i x field
  rw [props_attach] at field
  have above := fielded field
  rwa [Extends.attach.ancestors (lt_size_of_mem_ancestors above)]

/-- Fields may be entered at a node that is above them. -/
theorem Fielded.modify {f : Node → Node} (fielded : g.Fielded)
    (keep : (g.node i).Keeps (f (g.node i)))
    (below : ∀ x ∈ (f (g.node i)).props, x ∈ (g.node i).props ∨ i ∈ g.ancestors x.2) :
    (g.modify i f).Fielded := by
  intro j x field
  have above : j ∈ g.ancestors x.2 := by
    by_cases inside : i < g.size
    · rw [node_modify inside] at field
      split at field
      · next same =>
        subst same
        exact (below x field).elim (fun old => fielded old) id
      · exact fielded field
    · rw [modify_of_size_le (Nat.le_of_not_lt inside)] at field
      exact fielded field
  rwa [Extends.ancestors (.modify keep) (lt_size_of_mem_ancestors above)]

/-- A step enters fields at nodes above them only. -/
theorem Fielded.step (fielded : g.Fielded) (forest : g.Forest) (step : Step d g h) :
    h.Fielded := by
  have move : ∀ {h}, Move d g h → h.Fielded := fun move => by
    cases move with
    | attach => exact fielded.attach
    | visit =>
      exact fielded.modify { Node.Keeps.refl _ with visited := fun _ => rfl } fun _ => .inl
    | @turn _ shape required kind wraps =>
      exact fielded.modify
        { Node.Keeps.refl _ with kind := .inr ⟨shape, required, kind, wraps, rfl⟩ } fun _ => .inl
    | field _ child =>
      refine fielded.modify { Node.Keeps.refl _ with } fun x field => ?_
      rcases Run.mem_assign field with rfl | old
      · exact .inr (forest.ancestors_of_child child ▸ List.mem_cons_self)
      · exact .inl old
    | consolidate =>
      exact fielded.modify { Node.Keeps.refl _ with consolidated := fun _ => rfl } fun _ => .inl
    | merge _ _ fields =>
      exact fielded.modify { Node.Keeps.refl _ with } fun x field => .inr (fields x field).above
  cases step with
  | attach => exact fielded.attach
  | change step => exact move step
  | fill below =>
    exact fielded.modify { Node.Keeps.refl _ with } fun x field => .inr (below x field)

theorem Fielded.steps (fielded : g.Fielded) (forest : g.Forest) (steps : Steps d g h) :
    h.Fielded := by
  induction steps with
  | refl => exact fielded
  | tail before step ih => exact ih.step (forest.steps before) step

/-! ## References of properties -/

/-- Growth leaves the source of a node. -/
theorem Extends.sourceOf? (step : g.Extends h) (forest : g.Forest) (lt : i < g.size) :
    h.sourceOf? i = g.sourceOf? i := by
  unfold Graph.sourceOf?
  rw [(step.keeps lt).parent]
  cases parent : (g.node i).parent with
  | none => rfl
  | some p =>
    have child := forest.child parent
    have keeps := step.keeps (lt_size_of_child child)
    obtain ⟨more, grown⟩ := keeps.children
    rw [Option.bind_some, Option.bind_some, keeps.propAt?, ← grown,
      List.idxOf_append_of_mem child]

/-- Growth leaves the pointer of a node. -/
theorem Extends.pointerAt? (step : g.Extends h) (forest : g.Forest) (lt : i < g.size) :
    h.pointerAt? i = g.pointerAt? i := by
  rw [Graph.pointerAt?, Graph.pointerAt?, step.sourceOf? forest lt]

/-- Growth leaves the elements above a node. -/
theorem Extends.elementsAbove (step : g.Extends h) (lt : i < g.size) :
    h.elementsAbove i = g.elementsAbove i := by
  have old : ∀ a ∈ i :: g.ancestors i, (h.node a).isProperty = (g.node a).isProperty :=
    fun a mem => by
      have inside : a < g.size := by
        rcases List.mem_cons.mp mem with rfl | above
        · exact lt
        · exact (lt_of_mem_ancestors above).trans lt
      rw [Node.isProperty, Node.isProperty, (step.keeps inside).kind.isProperty]
  have same : ∀ l : List Nat, (∀ a ∈ l, (h.node a).isProperty = (g.node a).isProperty) →
      (l.takeWhile fun a => (h.node a).isProperty) =
        l.takeWhile fun a => (g.node a).isProperty := fun l => by
    induction l with
    | nil => exact fun _ => rfl
    | cons a l ih =>
      intro mem
      rw [List.takeWhile_cons, List.takeWhile_cons, mem a List.mem_cons_self,
        ih fun b hb => mem b (List.mem_cons_of_mem a hb)]
  rw [Graph.elementsAbove, Graph.elementsAbove, step.ancestors lt]
  exact same _ old

/-- The elements above a node are properties on its way up. -/
theorem mem_elementsAbove (element : a ∈ g.elementsAbove i) :
    a ∈ i :: g.ancestors i ∧ (g.node a).isProperty = true :=
  ⟨(List.takeWhile_sublist _).subset element,
    List.mem_takeWhile_imp (p := fun a => (g.node a).isProperty) element⟩

/-- No elements are above a node that is no property. -/
@[simp] theorem elementsAbove_of_not_isProperty (other : (g.node i).isProperty = false) :
    g.elementsAbove i = [] := by
  rw [elementsAbove, List.takeWhile_cons, other]
  rfl

/-- A property has itself and the elements above its parent above it. -/
theorem Forest.elementsAbove_of_child (forest : g.Forest) {c : Nat}
    (child : c ∈ (g.node i).children)
    (prop : (g.node c).isProperty = true) : g.elementsAbove c = c :: g.elementsAbove i := by
  rw [elementsAbove, List.takeWhile_cons, prop, forest.ancestors_of_child child]
  rfl

/-- The fragment of a property is the one at its place below its owner. -/
theorem Forest.sourceOf?_of_last (forest : g.Forest) {c : Nat} {before : List Nat}
    (last : (g.node i).children = before ++ [c]) :
    g.sourceOf? c = ((g.node i).propAt? before.length).map Prod.snd := by
  have mem : c ∈ (g.node i).children := last ▸ List.mem_append_right _ (List.mem_singleton_self c)
  have free : c ∉ before := fun old => by
    have sorted := forest.sorted i
    rw [last, List.pairwise_append] at sorted
    exact Nat.lt_irrefl c (sorted.2.2 c old c (List.mem_singleton_self c))
  rw [sourceOf?, forest.parent mem, Option.bind_some, last, List.idxOf_append_of_notMem free]
  simp

end Graph

/-- A stretch of a run whatever its outcome: the graph takes guarded steps. -/
structure Run.Advances (d : Document) (r s : Run) : Prop where
  steps : r.graph.Steps d s.graph
  extent : s.extent = r.extent

namespace Run.Advances

variable {r s t : Run}

theorem refl (r : Run) : Advances d r r := ⟨.refl, rfl⟩

theorem trans (first : Advances d r s) (second : Advances d s t) : Advances d r t :=
  ⟨first.steps.trans second.steps, second.extent.trans first.extent⟩

instance : IsPreorder Run (Advances d) where
  refl := refl
  trans _ _ _ := trans

/-- Nothing but registries changed. -/
theorem of_same (graph : s.graph = r.graph) (extent : s.extent = r.extent) : Advances d r s :=
  ⟨graph ▸ .refl, extent⟩

/-- One step advances a run. -/
theorem single (step : r.graph.Step d s.graph) (extent : s.extent = r.extent) : Advances d r s :=
  ⟨.single step, extent⟩

theorem forest (advances : Advances d r s) (forest : r.graph.Forest) : s.graph.Forest :=
  forest.steps advances.steps

theorem grown (advances : Advances d r s) : r.graph.Extends s.graph :=
  advances.steps.extends

end Run.Advances

end RestGraph
