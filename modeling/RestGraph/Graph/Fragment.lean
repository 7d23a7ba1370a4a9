import RestGraph.Graph.Run
import RestGraph.Graph.Shape

/-!
# Nodes from fragments

A schema fragment becomes a node below a parent. Arrays build their elements at once, everything
else waits until it is visited. Where the id of the new node is already taken on the way up, a
circular leaf closes the cycle instead.
-/

namespace RestGraph

/-- How a schema node is called below its parent. -/
structure ChildNames where
  name : String
  scope : String
  discriminant : String
deriving DecidableEq, Repr

/-- The names of an anonymous schema with a scope. -/
def ChildNames.anonymous (name scope : String) : ChildNames := ⟨name, scope, "[" ++ scope ++ "]"⟩

/-- What a reference leads to is called like the component; anything else is anonymous. -/
def ChildNames.below (n : Node) : ChildNames :=
  match n.kind with
  | .reference pointer =>
    let name := componentName pointer
    ⟨name, name, name⟩
  | .response .. | .body _ => .anonymous n.scope n.scope
  | .array => .anonymous n.name (n.scope ++ "[]")
  | .composed | .union => .anonymous n.name (n.scope ++ "#" ++ toString n.children.length)
  | _ => .anonymous n.name n.scope

def circularText (id : String) : String :=
  id ++ " is already an ancestor, linking a circular reference"

/-- The fragment under `items`, if it is one. -/
def itemsOf? (schema : Json) : Option Json := (schema.get? "items").filter Json.isObject

namespace Build

/-- Append a node, or a circular leaf when its id is in the lineage of the parent. -/
def attachChecked (parent : Nat) (s : Seed) : Build Nat := do
  let g ← graph
  match g.lineageHit? parent s.id with
  | some ancestor =>
    warn (g.pathOf parent) .circularReference (circularText s.id)
    attach parent { s with kind := .circular ancestor, discriminant := s.id }
  | none =>
    match s.kind with
    | .reference pointer => modify (Run.addRef pointer)
    | _ => pure ()
    attach parent s

def warnMissingItems (array : Nat) : Build Unit := do
  warn (← pathOf array) .missingItems "array declares no items, using a JSON placeholder element"

/-- The element of an array that does not say what it holds. -/
def attachPlaceholder (array : Nat) : Build Nat := do
  warnMissingItems array
  let names := ChildNames.below (← node array)
  attach array
    { kind := .scalar .json true
      name := names.name
      discriminant := names.discriminant
      scope := names.scope
      schema := .object [] }

/-- The kind of a schema node; a reference is not one, and an unknown shape has none. -/
def kindOfShape? : Shape → Option Kind
  | .array => some .array
  | .composed => some .composed
  | .union => some .union
  | .object synthetic => some (.object synthetic)
  | .enum values => some (.enum values)
  | .scalar type => some (.scalar type false)
  | .reference _ | .unknown => none

/-- What holds for a node just made: a component is registered, an array gets its element. -/
def settle (element : Nat → Json → Build Nat) (parent i : Nat) (schema : Json) :
    Build Unit := do
  let made := (← node i)
  match (← node parent).kind, made.kind with
  | .reference _, .circular _ => pure ()
  | .reference _, _ => modify (Run.register i made.name)
  | _, _ => pure ()
  match made.kind with
  | .array =>
    match itemsOf? schema with
    | some items => discard (element i items)
    | none => discard (attachPlaceholder i)
  | _ => pure ()

def fromSchemaWithin : Nat → Nat → Json → Build Nat
  | 0, _, _ => throw .depth
  | depth + 1, parent, schema => do
    let names := ChildNames.below (← node parent)
    match Shape.ofSchema schema with
    | .reference pointer =>
      attachChecked parent
        { kind := .reference pointer
          name := componentName pointer
          discriminant := pointer
          scope := names.scope
          schema }
    | shape =>
      match kindOfShape? shape with
      | none => throw (.schema schema (← pathOf parent))
      | some kind =>
        let i ← attachChecked parent
          { kind
            name := names.name
            discriminant := names.discriminant
            scope := names.scope
            schema }
        settle (fromSchemaWithin depth) parent i schema
        return i

/-- The node for a fragment, below its parent. -/
def fromSchema (parent : Nat) (schema : Json) : Build Nat :=
  fromSchemaWithin schema.size parent schema

/-! ## Properties -/

/-- How a property shows a value of a shape. What has no declaration is any JSON value. -/
def propShapeOf : Shape → PropShape
  | .scalar type => .scalar type false
  | .object true | .unknown | .reference _ => .scalar .json false
  | .array => .array
  | .object false => .object
  | .composed | .union => .composed
  | .enum _ => .enum

/-- The element that closes a cycle of array components. -/
def circularElement (owner : Nat) (name : String) (schema : Json) (ancestor : Nat) :
    Build Nat := do
  let g ← graph
  warn (g.pathOf owner) .circularReference (circularText (g.idAt ancestor))
  let scope := (g.node owner).scope ++ "[]"
  let prop ← attach owner
    { kind := .property .circular false
      name
      discriminant := name
      scope
      schema }
  discard <| attach prop
    { kind := .circular ancestor
      name
      discriminant := g.idAt ancestor
      scope
      schema }
  return prop

def placeholderElement (prop : Nat) (name : String) : Build Unit := do
  warnMissingItems prop
  discard <| attach prop
    { kind := .property (.scalar .json true) false
      name
      discriminant := name
      scope := (← node prop).scope ++ "[]"
      schema := .object [] }

/-- The node that a property wraps; when it closes a cycle, so does the property. -/
def wrapSchema (prop : Nat) (schema : Json) (required : Bool) : Build Unit := do
  let child ← fromSchema prop schema
  match (← node child).kind with
  | .circular _ => modifyNode prop fun n => { n with kind := .property .circular required }
  | _ => pure ()

variable (d : Document)

/-- The fragment that decides the shape of a property: the end of its references. -/
def decisive (owner : Nat) (schema : Json) : Build Json := do
  match schema.ref? with
  | none => return schema
  | some pointer =>
    let r ← get
    let path := r.graph.pathOf owner
    let target ← liftExcept (d.component pointer path)
    liftExcept (d.followFrom path (r.extent + 3) [] target)

/-- A property of an object, or the element of an array property. Elements are built at once and
pass through no reference node, so the references followed for them are kept in `followed`. -/
def propWithin : Nat → Nat → String → Json → Bool → List (String × Nat) → Build Nat
  | 0, _, _, _, _, _ => throw .depth
  | depth + 1, owner, name, schema, required, followed => do
    match schema.ref?.bind fun p => followed.lookup p with
    | some ancestor => circularElement owner name schema ancestor
    | none =>
      let ownerNode ← node owner
      let fragment ← decisive d owner schema
      let shape := propShapeOf (Shape.ofSchema fragment)
      let prop ← attach owner
        { kind := .property shape required
          name
          discriminant := name
          scope :=
            if ownerNode.isProperty then ownerNode.scope ++ "[]"
            else ownerNode.scope ++ "." ++ name
          schema := fragment }
      match shape with
      | .scalar .. | .circular => pure ()
      | .array =>
        match itemsOf? fragment with
        | some items =>
          let followed := match schema.ref? with
            | some pointer => (pointer, prop) :: followed
            | none => followed
          discard (propWithin depth prop name items false followed)
        | none => placeholderElement prop name
      | .object | .composed | .enum => wrapSchema prop schema required
      return prop

/-- The property with a name and a fragment, below its owner. -/
def fromProp (owner : Nat) (name : String) (schema : Json) (required : Bool) :
    Build Nat := do
  propWithin d (← get).reach owner name schema required []

/-! ## Fragments from elsewhere -/

/-- A node for a fragment that need not occur in the description. -/
def graftSchema (parent : Nat) (schema : Json) : Build Nat := do
  modify (Run.widen schema)
  fromSchema parent schema

/-- A property for a fragment that need not occur in the description. -/
def graftProp (owner : Nat) (name : String) (schema : Json) (required : Bool) :
    Build Nat := do
  modify (Run.widen schema)
  fromProp d owner name schema required

/-- An operation that need not occur in the description. -/
def graftRoot (method : Method) (path name : String) (operation : Json) : Build Nat := do
  modify (Run.widen operation)
  let i := (← get).graph.size
  modify <| Run.onGraph fun g => g.addRoot
    { kind := .operation method path []
      name
      discriminant := path
      scope := name
      schema := operation }
  return i

end Build

end RestGraph
