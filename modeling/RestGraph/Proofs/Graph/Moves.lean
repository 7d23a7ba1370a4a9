import Mathlib.Logic.Relation
import RestGraph.Proofs.Document.Within
import RestGraph.Proofs.Graph.Ways

/-!
# Moves

All that a step of a run can do to its graph, one change at a time: attach a node, mark one as
visited, let a property close a cycle, enter a field, merge. What every move keeps holds of every
graph that a run builds.
-/

namespace RestGraph

/-- Whether an operation has at most one child with the tag. -/
def Tag.isSingle : Tag → Bool
  | body | response => true
  | _ => false

namespace Kind

/-- Whether nodes of the kind are made from a fragment alone. -/
def isSchema : Kind → Bool
  | scalar .. | enum _ | object _ | array | reference _ | composed | union | circular _ => true
  | _ => false

/-- Whether nodes of the second kind may stand below nodes of the first. -/
def admits : Kind → Kind → Bool
  | operation .., c => match c.tag with
    | .param | .body | .response => true
    | _ => false
  | param .., c | body _, c | response .., c | reference _, c => c.isSchema
  | array, c | composed, c | union, c => c.isSchema
  | object _, c | property .array _, c => c.isProperty
  | property .circular _, c => c.tag == .circular
  | property .object _, c | property .composed _, c | property .enum _, c => c.isSchema
  | _, _ => false

/-- Whether nodes of the kind have at most one child. -/
def isNarrow : Kind → Bool
  | param .. | body _ | response .. | reference _ | array | property .. => true
  | _ => false

/-- Whether merging goes on below nodes of the kind. -/
def expands : Kind → Bool
  | reference _ | composed | union => true
  | _ => false

theorem Turns.expands {k k' : Kind} (h : k.Turns k') : k'.expands = k.expands := by
  rcases h with rfl | ⟨_, _, rfl, _, rfl⟩ <;> rfl

/-- Whether nodes of the kind get their children when they are made, not when they are visited. -/
def isEager : Kind → Bool
  | array | property .. => true
  | _ => false

/-- The parameters that an operation has from its path. -/
def shared : Kind → List Json
  | operation _ _ shared => shared
  | _ => []

end Kind

/-- A fragment of the description, of what a node was made from, or of what stands in for a missing
response. -/
def Document.Offers (d : Document) (n : Node) (j : Json) : Prop :=
  ∃ whole, (whole = d.root ∨ whole = n.schema ∨ whole ∈ n.kind.shared ∨ whole = syntheticSchema) ∧
    j.Within whole

namespace Document.Offers

variable {d : Document} {n n' : Node} {j x : Json}

/-- The document itself offers its fragments to every node. -/
theorem of_root (inside : j.Within d.root) : d.Offers n j := ⟨d.root, .inl rfl, inside⟩

/-- A node is offered what is inside its own schema. -/
theorem of_schema (inside : j.Within n.schema) : d.Offers n j := ⟨n.schema, .inr (.inl rfl), inside⟩

theorem of_shared (mem : j ∈ n.kind.shared) : d.Offers n j := ⟨j, .inr (.inr (.inl mem)), .refl⟩

/-- The parameters of a path and those of the operation itself. -/
theorem of_declared {shared : List Json} (own : n.kind.shared = shared)
    (mem : j ∈ shared ++ ((n.schema.get? "parameters").bind Json.list?).getD []) :
    d.Offers n j := by
  rcases List.mem_append.mp mem with mem | mem
  · exact .of_shared (own ▸ mem)
  · exact .of_schema (Json.within_of_mem_listAt mem)

/-- The responses of an operation, where there are any. -/
theorem of_response {status : String}
    (got : ((n.schema.get? "responses").getD .null).get? status = some j) : d.Offers n j := by
  cases found : n.schema.get? "responses" with
  | none =>
    rw [found] at got
    cases got
  | some responses =>
    rw [found] at got
    exact .of_schema ((Json.within_of_get? got).trans (Json.within_of_get? found))

/-- Every node is offered the object made up for it. -/
theorem synthetic : d.Offers n syntheticSchema := ⟨_, .inr (.inr (.inr rfl)), .refl⟩

theorem inside (offered : d.Offers n j) (inside : x.Within j) : d.Offers n x := by
  obtain ⟨whole, source, within⟩ := offered
  exact ⟨whole, source, inside.trans within⟩

/-- References lead to what the description offers. -/
theorem follow (offered : d.Offers n j) (leads : x = j ∨ x.Within d.root) : d.Offers n x := by
  rcases leads with rfl | inside
  · exact offered
  · exact .of_root inside

/-- A node that is kept is offered what it was offered. -/
theorem keep (offered : d.Offers n j) (keeps : n.Keeps n') : d.Offers n' j := by
  have shared : n'.kind.shared = n.kind.shared := by
    rcases keeps.kind with kind | ⟨_, _, kind, _, kind'⟩
    · rw [kind]
    · rw [kind, kind']
      rfl
  unfold Offers
  rw [shared, keeps.schema]
  exact offered

end Document.Offers

/-- The fragment of the child at a place below a node, where the node alone says it. -/
def Document.fragmentAt? (d : Document) (n : Node) (place : Nat) : Option Json :=
  match n.kind with
  | .reference pointer => d.lookup? pointer
  | .param .. => some (match n.schema.get? "schema" with
    | some s => s
    | none => (Media.schema? n.schema).getD defaultParamSchema)
  | .body _ | .response .. => some n.schema
  | .array => itemsOf? n.schema
  | .composed => (branchesOf n.schema ["allOf"])[place]?
  | .union => (branchesOf n.schema ["oneOf", "anyOf"])[place]?
  | _ => none

/-- The name and the fragment of the property at a place below a node. -/
def Node.propAt? (n : Node) (place : Nat) : Option (String × Json) :=
  match n.kind with
  | .object _ => (sortedProperties n.schema)[place]?
  | .property .array _ => (itemsOf? n.schema).map fun items => (n.name, items)
  | _ => none

/-- A node that is kept has the same fragments at its places. -/
theorem Node.Keeps.fragmentAt? {n n' : Node} (h : n.Keeps n') (d : Document) (place : Nat) :
    d.fragmentAt? n' place = d.fragmentAt? n place := by
  unfold Document.fragmentAt?
  rw [h.schema]
  rcases h.kind with e | ⟨_, _, e, _, e'⟩
  · rw [e]
  · rw [e, e']

/-- A node that is kept has the same properties at its places. -/
theorem Node.Keeps.propAt? {n n' : Node} (h : n.Keeps n') (place : Nat) :
    n'.propAt? place = n.propAt? place := by
  unfold Node.propAt?
  rw [h.schema, h.name]
  rcases h.kind with e | ⟨shape, _, e, wraps, e'⟩
  · rw [e]
  · rw [e, e']
    cases shape <;> first | rfl | cases wraps

/-- The second fragment is where the references of the first end. -/
def Document.Decides (d : Document) (schema fragment : Json) : Prop :=
  match schema.ref? with
  | none => fragment = schema
  | some pointer => ∃ path fuel target, d.component pointer path = .ok target ∧
      d.followFrom path fuel [] target = .ok fragment

/-- What decides is the fragment itself, or stands in the description. -/
theorem Document.Decides.eq_or_within {d : Document} {schema fragment : Json}
    (decides : d.Decides schema fragment) : fragment = schema ∨ fragment.Within d.root := by
  unfold Decides at decides
  split at decides
  · exact .inl decides
  · obtain ⟨_, _, _, component, follow⟩ := decides
    exact .inr (within_of_target component follow)

/-- The node for a fragment below another, before its id is compared with those above. -/
def Node.seedBelow? (n : Node) (schema : Json) : Option Seed :=
  let names := ChildNames.below n
  match Shape.ofSchema schema with
  | .reference pointer => some
    { kind := .reference pointer
      name := componentName pointer
      discriminant := pointer
      scope := names.scope
      schema }
  | shape => (Build.kindOfShape? shape).map fun kind =>
    { kind
      name := names.name
      discriminant := names.discriminant
      scope := names.scope
      schema }

namespace Node

theorem seedBelow?_isSchema {n : Node} {schema : Json} {s : Seed}
    (h : n.seedBelow? schema = some s) : s.kind.isSchema = true := by
  unfold seedBelow? at h
  dsimp only at h
  split at h
  · cases h
    rfl
  · next shape _ =>
    obtain ⟨kind, made, rfl⟩ := Option.map_eq_some_iff.mp h
    unfold Build.kindOfShape? at made
    split at made <;> cases made <;> rfl

/-- Below a node, a fragment of no reference is seeded by its shape. -/
theorem seedBelow?_of_kind {n : Node} {schema : Json} {kind : Kind}
    (notRef : ∀ pointer, Shape.ofSchema schema ≠ .reference pointer)
    (made : Build.kindOfShape? (Shape.ofSchema schema) = some kind) :
    n.seedBelow? schema = some
      { kind
        name := (ChildNames.below n).name
        discriminant := (ChildNames.below n).discriminant
        scope := (ChildNames.below n).scope
        schema } := by
  unfold seedBelow?
  dsimp only
  split
  · next pointer shape => exact absurd shape (notRef pointer)
  · rw [made]
    rfl

/-- A seed has the scope that the parent says and the kind that the fragment says. -/
theorem seedBelow?_spec {n : Node} {schema : Json} {s : Seed} (h : n.seedBelow? schema = some s) :
    s.schema = schema ∧ s.scope = (ChildNames.below n).scope ∧
      ((∃ pointer, Shape.ofSchema schema = .reference pointer ∧ s.kind = .reference pointer ∧
          s.discriminant = pointer) ∨
        Build.kindOfShape? (Shape.ofSchema schema) = some s.kind ∧
          s.discriminant = (ChildNames.below n).discriminant) := by
  unfold seedBelow? at h
  dsimp only at h
  split at h
  · next pointer shape =>
    cases h
    exact ⟨rfl, rfl, .inl ⟨pointer, shape, rfl, rfl⟩⟩
  · obtain ⟨kind, made, rfl⟩ := Option.map_eq_some_iff.mp h
    exact ⟨rfl, rfl, .inr ⟨made, rfl⟩⟩

/-- The fragment alone decides the kind. -/
theorem seedBelow?_kind {n n' : Node} {schema : Json} {s s' : Seed}
    (h : n.seedBelow? schema = some s) (h' : n'.seedBelow? schema = some s') :
    s.kind = s'.kind := by
  obtain ⟨-, -, ⟨pointer, shape, kind, -⟩ | ⟨made, -⟩⟩ := seedBelow?_spec h <;>
    obtain ⟨-, -, ⟨pointer', shape', kind', -⟩ | ⟨made', -⟩⟩ := seedBelow?_spec h'
  · rw [shape] at shape'
    cases shape'
    rw [kind, kind']
  · rw [shape] at made'
    cases made'
  · rw [shape'] at made
    cases made
  · rw [made, Option.some.injEq] at made'
    exact made'

end Node

namespace Graph

/-- A node as it is attached: a leaf that closes a cycle where the id is taken on the way up. -/
def checked (g : Graph) (parent : Nat) (s : Seed) : Seed :=
  match g.lineageHit? parent s.id with
  | some ancestor => { s with kind := .circular ancestor, discriminant := s.id }
  | none => s

/-- The fragment that the child at a place below a node is made from: of its own, or what a
property was made from. -/
inductive Holds (d : Document) (g : Graph) (p place : Nat) : Json → Prop
  | own {f : Json} (here : d.fragmentAt? (g.node p) place = some f) : Holds d g p place f
  | wrapped {owner k : Nat} {name : String} {f : Json}
      (child : (g.node owner).children[k]? = some p)
      (here : (g.node owner).propAt? k = some (name, f)) : Holds d g p place f

/-- No child of the node has the tag. -/
def Lacks (g : Graph) (p : Nat) (tag : Tag) : Prop :=
  ∀ c ∈ (g.node p).children, (g.node c).kind.tag ≠ tag

/-- The nodes that may be attached below a node, and what they are made from. -/
inductive Sprouts (d : Document) (g : Graph) (p : Nat) : Seed → Prop
  /-- A parameter, the body or the response. -/
  | part {s : Seed} (tag : (g.node p).kind.tag = .operation)
      (single : s.kind.tag.isSingle = true → g.Lacks p s.kind.tag)
      (offered : d.Offers (g.node p) s.schema) : Sprouts d g p s
  /-- The node for a fragment. -/
  | schema {f : Json} {s : Seed} (holds : Holds d g p (g.node p).children.length f)
      (made : (g.node p).seedBelow? f = some s) : Sprouts d g p (g.checked p s)
  /-- A property of an object, or the element of an array property. -/
  | prop {name : String} {schema fragment : Json} {required : Bool}
      (here : (g.node p).propAt? (g.node p).children.length = some (name, schema))
      (decides : d.Decides schema fragment) :
      Sprouts d g p
        { kind := .property (Build.propShapeOf (Shape.ofSchema fragment)) required
          name
          discriminant := name
          scope :=
            if (g.node p).isProperty then (g.node p).scope ++ "[]"
            else (g.node p).scope ++ "." ++ name
          schema := fragment }
  /-- A placeholder, or what closes a cycle of array components. -/
  | closing {s : Seed}
      (owner : (g.node p).kind.isArray = true ∨ (g.node p).kind.isCircular = true)
      (bare : s.kind.isCircular = true ∨
      (∃ type, s.kind = .scalar type true) ∨ ∃ type b, s.kind = .property (.scalar type true) b) :
      Sprouts d g p s

/-- A seed that is checked keeps its kind or becomes a circular reference. -/
theorem checked_kind (g : Graph) (parent : Nat) (s : Seed) :
    (g.checked parent s).kind = s.kind ∨ (g.checked parent s).kind.tag = .circular := by
  unfold checked
  split
  · exact .inr rfl
  · exact .inl rfl

/-- A sprout of a kind that occurs once is the first of it. -/
theorem Sprouts.single {d : Document} {g : Graph} {p : Nat} {s : Seed} (sprouts : g.Sprouts d p s)
    (single : s.kind.tag.isSingle = true) : g.Lacks p s.kind.tag := by
  have plain : ∀ {k : Kind}, k.tag.isSingle = true → k.isSchema = false ∧ k.isProperty = false :=
    fun {k} single => by cases k <;> first | exact ⟨rfl, rfl⟩ | cases single
  cases sprouts with
  | part _ lacks => exact lacks single
  | @schema f s _ made =>
    have schema := Node.seedBelow?_isSchema made
    rcases g.checked_kind p s with same | circular
    · rw [same] at single
      rw [(plain single).1] at schema
      cases schema
    · rw [circular] at single
      cases single
  | prop => cases single
  | closing _ bare =>
    rcases bare with circular | ⟨_, scalar⟩ | ⟨_, _, prop⟩
    · cases kind : s.kind <;> rw [kind] at circular single <;>
        first | exact Bool.noConfusion single | exact Bool.noConfusion circular
    · rw [scalar] at single
      cases single
    · rw [prop] at single
      cases single

/-- The handle is that of a property below the node, under its own name. -/
structure IsField (g : Graph) (i : Nat) (x : String × Nat) : Prop where
  above : i ∈ g.ancestors x.2
  isProperty : (g.node x.2).isProperty = true
  name : (g.node x.2).name = x.1

theorem Extends.isField {g h : Graph} {i : Nat} {x : String × Nat} (step : g.Extends h)
    (field : g.IsField i x) : h.IsField i x := by
  have lt := lt_size_of_mem_ancestors field.above
  constructor
  · rw [step.ancestors lt]
    exact field.above
  · rw [Node.isProperty, (step.keeps lt).kind.isProperty]
    exact field.isProperty
  · rw [(step.keeps lt).name]
    exact field.name

/-- Merging goes from the first node on to the second. -/
def Edge (g : Graph) (a b : Nat) : Prop := (g.node a).kind.expands = true ∧ b ∈ (g.node a).children

/-- The second node is merged into the first. -/
def Branch (g : Graph) : Nat → Nat → Prop := Relation.TransGen g.Edge

theorem Edge.extend {g h : Graph} {a b : Nat} (edge : g.Edge a b) (step : g.Extends h) :
    h.Edge a b := by
  have keeps := step.keeps (lt_size_of_child edge.2)
  exact ⟨keeps.kind.expands.trans edge.1, keeps.children.subset edge.2⟩

theorem Branch.extend {g h : Graph} {a b : Nat} (branch : g.Branch a b) (step : g.Extends h) :
    h.Branch a b :=
  Relation.TransGen.mono (fun _ _ edge => Edge.extend edge step) _ _ branch

/-- The handle is that of a property of an object that is merged into the node. -/
def Inherits (g : Graph) (i : Nat) (x : String × Nat) : Prop :=
  ∃ o, g.Branch i o ∧ (g.node o).kind.tag = .object ∧ x.2 ∈ (g.node o).children

theorem Extends.inherits {g h : Graph} {i : Nat} {x : String × Nat} (step : g.Extends h)
    (inherits : g.Inherits i x) : h.Inherits i x := by
  obtain ⟨o, branch, object, child⟩ := inherits
  have keeps := step.keeps (lt_size_of_child child)
  exact ⟨o, branch.extend step, keeps.kind.tag.trans object, keeps.children.subset child⟩

/-- One change of a graph. -/
inductive Move (d : Document) (g : Graph) : Graph → Prop
  | attach {p : Nat} {s : Seed} (inside : p < g.size)
      (admits : (g.node p).kind.admits s.kind = true)
      (room : (g.node p).kind.isNarrow = true → (g.node p).children = [])
      (due : (g.node p).kind.isEager = false → (g.node p).visited = true)
      (sprouts : Sprouts d g p s) : Move d g (g.attach p s)
  | visit {i : Nat} (inside : i < g.size) :
    Move d g (g.modify i fun n => { n with visited := true })
  /-- A property whose child closes a cycle does so itself. -/
  | turn {i : Nat} {shape : PropShape} {required : Bool}
      (kind : (g.node i).kind = .property shape required) (wraps : shape.isWrapper = true)
      (closed : ∀ c ∈ (g.node i).children, (g.node c).kind.tag = .circular) :
      Move d g (g.modify i fun n => { n with kind := .property .circular required })
  | field {i prop : Nat} {name : String} (object : (g.node i).kind.tag = .object)
      (child : prop ∈ (g.node i).children) (isProperty : (g.node prop).isProperty = true)
      (named : (g.node prop).name = name) :
      Move d g (g.modify i fun n => { n with props := Run.assign name prop n.props })
  | consolidate {i : Nat} (inside : i < g.size) :
      Move d g (g.modify i fun n => { n with consolidated := true })
  | merge {i : Nat} {props : List (String × Nat)}
      (composition : (g.node i).kind.isComposition = true)
      (consolidated : (g.node i).consolidated = true) (fields : ∀ x ∈ props, g.IsField i x)
      (inherited : ∀ x ∈ props, g.Inherits i x)
      (keys : (props.map Prod.fst).Nodup) :
      Move d g (g.modify i fun n => { n with props })

def Moves (d : Document) : Graph → Graph → Prop := Relation.ReflTransGen (Move d)

end Graph

end RestGraph
