import RestGraph.Schema.Draft
import RestGraph.Proofs.Graph.Sound

/-!
# What is met on the way down

From a node the way goes to its element, and from a container on through its fields. Both passes of
the generator take this way: the types are drafted along it, and the mappings are written along it.
Once all that is met has been built, the graph may grow and the way stays.
-/

namespace RestGraph

/-- What one side of an operation shows of the containers. -/
def Side.selection (c : Collection) : Side → Option Collection
  | output => some c
  | input => none

/-- Whether a field is declared. One that closes a cycle is not. -/
def VisibleField.isDeclared (g : Graph) (f : VisibleField) : Bool :=
  f.name.isSome && !(g.node (g.elementOf f.prop)).kind.isCircular

/-- Whether the values can be declared. Values that are no names cannot. -/
def Naming.areEnumValues (values : List String) : Bool :=
  !values.eraseDups.isEmpty && values.eraseDups.all Naming.isEnumValue

namespace Graph

/-- The fields of a container on one side of an operation. -/
def fieldsOn (g : Graph) (c : Collection) (side : Side) (n : Nat) : List VisibleField :=
  visibleFields g n (side.selection c)

/-- Whether no field of the container is declared. Then it is any JSON value. -/
def isHollow (g : Graph) (c : Collection) (side : Side) (n : Nat) : Bool :=
  !(g.fieldsOn c side n).any (VisibleField.isDeclared g)

def declKey (g : Graph) (side : Side) (n : Nat) : String :=
  match side with
  | .output => g.idAt n
  | .input => g.idAt n ++ "/input"

/-- The key of the declaration that a node has, if it has one and is no mere scalar. -/
def declKey? (g : Graph) (c : Collection) (side : Side) (n : Nat) : Option String :=
  match (g.node n).kind with
  | .object false | .composed | .union =>
    if g.isHollow c side n then none else some (g.declKey side n)
  | .enum values => if Naming.areEnumValues values then some (g.idAt n) else none
  | _ => none

/-- From the first node the way down comes past the second. -/
inductive Meets (g : Graph) (c : Collection) (side : Side) : Nat → Nat → Prop
  | here (i : Nat) : Meets g c side i (g.elementOf i)
  | field {i e : Nat} {f : VisibleField}
      (structured : (g.node (g.elementOf i)).kind.isStructured = true)
      (shown : f ∈ g.fieldsOn c side (g.elementOf i)) (named : f.name.isSome = true)
      (more : Meets g c side f.prop e) : Meets g c side i e

/-- No visit gives the node anything that the way down depends on. -/
structure Settled (g : Graph) (n : Nat) : Prop where
  inside : n < g.size
  visited : (g.node n).kind.isWrapper = true ∨ (g.node n).kind.isArray = true ∨
    (g.node n).kind.isStructured = true → (g.node n).visited = true
  merged : (g.node n).isMerged = true

/-- All that is met from a node has been built. -/
structure Explored (g : Graph) (c : Collection) (side : Side) (i : Nat) : Prop where
  inside : i < g.size
  settled : ∀ e, g.Meets c side i e → g.Settled e

variable {g h : Graph} {c : Collection} {side : Side} {e i j m n : Nat} {f : VisibleField}

/-! ## Fields -/

/-- The fields shown are among those that the node has. -/
theorem mem_nameFields {taken : List String} {props : List (String × Nat)}
    (shown : f ∈ nameFields g taken props) : (f.jsonName, f.prop) ∈ props := by
  induction props generalizing taken with
  | nil => cases shown
  | cons x rest ih =>
    rw [nameFields] at shown
    split at shown
    · rcases List.mem_cons.mp shown with rfl | shown
      · exact List.mem_cons_self
      · exact List.mem_cons_of_mem _ (ih shown)
    · rcases List.mem_cons.mp shown with rfl | shown
      · exact List.mem_cons_self
      · exact List.mem_cons_of_mem _ (ih shown)

/-- A field on a node is one of its entries. -/
theorem prop_of_mem_fieldsOn (shown : f ∈ g.fieldsOn c side n) :
    (f.jsonName, f.prop) ∈ (g.node n).props :=
  (List.mem_filter.mp (mem_nameFields shown)).1

@[simp]
theorem jsonNames_nameFields (g : Graph) (taken : List String) (props : List (String × Nat)) :
    (nameFields g taken props).map VisibleField.jsonName = props.map Prod.fst := by
  induction props generalizing taken with
  | nil => rfl
  | cons x rest ih =>
    rw [nameFields]
    split <;> rw [List.map_cons, List.map_cons, ih]

/-- A container shows one field for a JSON key. -/
theorem Sound.nodup_fieldsOn (sound : g.Sound) (c : Collection) (side : Side) (n : Nat) :
    ((g.fieldsOn c side n).map VisibleField.jsonName).Nodup := by
  rw [fieldsOn, visibleFields, jsonNames_nameFields]
  exact (sound.keys n).sublist (List.filter_sublist.map _)

theorem nameFields_congr {taken : List String} {props : List (String × Nat)}
    (kind : ∀ x ∈ props, (h.node x.2).kind = (g.node x.2).kind) :
    nameFields h taken props = nameFields g taken props := by
  induction props generalizing taken with
  | nil => rfl
  | cons x rest ih =>
    have same : ∀ taken, nameFields h taken rest = nameFields g taken rest := fun _ =>
      ih fun y hy => kind y (List.mem_cons_of_mem x hy)
    rw [nameFields, nameFields, kind x List.mem_cons_self]
    split <;> simp only [same]

/-- A node that is settled keeps its fields. -/
theorem Settled.props (settled : g.Settled n) (structured : (g.node n).kind.isStructured = true)
    (step : g.Grows g.unvisited h) : (h.node n).props = (g.node n).props :=
  step.props settled.inside (notMem_unvisited.mpr (settled.visited (.inr (.inr structured))))
    settled.merged

/-- A node that is settled keeps the fields on it. -/
theorem Settled.fieldsOn (settled : g.Settled n) (structured : (g.node n).kind.isStructured = true)
    (sound : g.Sound) (step : g.Grows g.unvisited h) :
    h.fieldsOn c side n = g.fieldsOn c side n := by
  rw [Graph.fieldsOn, Graph.fieldsOn, visibleFields, visibleFields, settled.props structured step]
  refine nameFields_congr fun x hx => ?_
  exact step.kind (lt_size_of_mem_ancestors (sound.fields (List.mem_filter.mp hx).1).above)

/-! ## Ways -/

namespace Meets

/-- The way depends on the element alone. -/
theorem congr (meets : g.Meets c side i e) (same : g.elementOf j = g.elementOf i) :
    g.Meets c side j e := by
  cases meets with
  | here => exact same ▸ .here j
  | field structured shown named more =>
    rw [← same] at structured shown
    exact .field structured shown named more

theorem trans (first : g.Meets c side i m) (second : g.Meets c side m e) : g.Meets c side i e := by
  induction first with
  | here i => exact second.congr (elementOf_elementOf g i).symm
  | field structured shown named _ ih => exact .field structured shown named (ih second)

/-- What is met is an element. -/
theorem elementOf (meets : g.Meets c side i e) : g.elementOf e = e := by
  induction meets with
  | here i => exact elementOf_elementOf g i
  | field _ _ _ _ ih => exact ih

/-- A field of a container that is met leads on. -/
theorem step (meets : g.Meets c side i m) (structured : (g.node m).kind.isStructured = true)
    (shown : f ∈ g.fieldsOn c side m) (named : f.name.isSome = true) :
    g.Meets c side i (g.elementOf f.prop) := by
  refine meets.trans (.field ?_ ?_ named (.here f.prop))
  · rwa [meets.elementOf]
  · rwa [meets.elementOf]

end Meets

/-! ## Growth -/

namespace Settled

theorem grow (settled : g.Settled n) (step : g.Grows g.unvisited h) : h.Settled n where
  inside := settled.inside.trans_le step.size_le
  visited needs := (step.keeps settled.inside).visited (settled.visited (by
    rwa [step.kind settled.inside] at needs))
  merged := (step.keeps settled.inside).isMerged settled.merged

end Settled

namespace Explored

variable (explored : g.Explored c side i) (sound : g.Sound) (step : g.Grows g.unvisited h)

include explored in
/-- What is met from a node that was explored was explored. -/
theorem of_meets (meets : g.Meets c side i m) : g.Explored c side m where
  inside := (explored.settled m meets).inside
  settled _ more := explored.settled _ (meets.trans more)

include explored in
/-- A field of what was explored was explored. -/
theorem of_field (structured : (g.node (g.elementOf i)).kind.isStructured = true)
    (shown : f ∈ g.fieldsOn c side (g.elementOf i)) (named : f.name.isSome = true)
    (sound : g.Sound) : g.Explored c side f.prop where
  inside := lt_size_of_mem_ancestors (sound.fields (prop_of_mem_fieldsOn shown)).above
  settled _ more := explored.settled _ (.field structured shown named more)

include explored sound step

theorem elementOf : h.elementOf i = g.elementOf i := by
  refine step.elementOf explored.inside sound.below fun leads => ?_
  have settled := explored.settled _ (.here i)
  exact notMem_unvisited.mpr (settled.visited (leads.imp_right .inl))

theorem meets (meets : g.Meets c side i e) : h.Meets c side i e := by
  induction meets with
  | here i => exact explored.elementOf sound step ▸ .here i
  | @field i e f structured shown named _ ih =>
    have settled := explored.settled _ (.here i)
    refine .field ?_ ?_ named (ih (explored.of_field structured shown named sound))
    · rw [explored.elementOf sound step, step.kind settled.inside]
      exact structured
    · rw [explored.elementOf sound step, settled.fieldsOn structured sound step]
      exact shown

/-- The graph that has grown shows no other way. -/
theorem meets_back (meets : h.Meets c side i e) : g.Meets c side i e := by
  induction meets with
  | here i => exact explored.elementOf sound step ▸ .here i
  | @field i e f structured shown named _ ih =>
    have settled := explored.settled _ (.here i)
    rw [explored.elementOf sound step] at structured shown
    rw [step.kind settled.inside] at structured
    rw [settled.fieldsOn structured sound step] at shown
    exact .field structured shown named (ih (explored.of_field structured shown named sound))

theorem grow : h.Explored c side i where
  inside := explored.inside.trans_le step.size_le
  settled _ meets :=
    (explored.settled _ (explored.meets_back sound step meets)).grow step

/-- What was explored goes on declaring the same fields. -/
theorem isDeclared (structured : (g.node (g.elementOf i)).kind.isStructured = true)
    (shown : f ∈ g.fieldsOn c side (g.elementOf i)) : f.isDeclared h = f.isDeclared g := by
  rw [VisibleField.isDeclared, VisibleField.isDeclared]
  cases named : f.name.isSome with
  | false => rfl
  | true =>
    have below := explored.of_field structured shown named sound
    rw [below.elementOf sound step, step.kind (elementOf_lt below.inside)]

/-- What was explored is hollow or not for good. -/
theorem isHollow (structured : (g.node (g.elementOf i)).kind.isStructured = true) :
    h.isHollow c side (g.elementOf i) = g.isHollow c side (g.elementOf i) := by
  have settled := explored.settled _ (.here i)
  rw [Graph.isHollow, Graph.isHollow, settled.fieldsOn structured sound step]
  congr 1
  rw [Bool.eq_iff_iff, List.any_eq_true, List.any_eq_true]
  refine exists_congr fun f => and_congr_right fun shown => ?_
  rw [explored.isDeclared sound step structured shown]

/-- What was explored keeps the key of its declaration. -/
theorem declKey? : h.declKey? c side (h.elementOf i) = g.declKey? c side (g.elementOf i) := by
  have lt := elementOf_lt explored.inside
  have structured : (g.node (g.elementOf i)).kind.isStructured = true →
      h.isHollow c side (g.elementOf i) = g.isHollow c side (g.elementOf i) :=
    explored.isHollow sound step
  have id : h.idAt (g.elementOf i) = g.idAt (g.elementOf i) := by
    rw [idAt, idAt, Node.id, Node.id, step.kind lt, (step.keeps lt).discriminant]
  have key : h.declKey side (g.elementOf i) = g.declKey side (g.elementOf i) := by
    cases side <;> simp only [declKey, id]
  rw [explored.elementOf sound step, Graph.declKey?, Graph.declKey?, step.kind lt, key, id]
  split
  · next kind => rw [structured (kind ▸ rfl)]
  · next kind => rw [structured (kind ▸ rfl)]
  · next kind => rw [structured (kind ▸ rfl)]
  · rfl
  · rfl

end Explored

end Graph

end RestGraph
