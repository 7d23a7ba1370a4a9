import RestGraph.Graph.Start
import RestGraph.Proofs.Graph.Moves
import RestGraph.Selection.Resolve

/-!
# Sites

What stands where in the full expansion of a description. A site knows the nodes above it and
nothing of what else was built, so its children, and the faults that keep it from having any, are
functions of the description. Children come level by level; what is built at once with a node, the
elements of arrays and what properties wrap, is part of its site.
-/

namespace RestGraph

/-- A kind without the handle that a circular leaf leads back to. -/
def Kind.unaimed : Kind → Kind
  | circular _ => circular 0
  | k => k

/-- What a node is made from. -/
def Node.seed (n : Node) : Seed := ⟨n.kind.unaimed, n.name, n.discriminant, n.scope, n.schema⟩

/-- A node as a seed makes it, with some number of children. -/
def Seed.node (s : Seed) (count : Nat) : Node :=
  { Node.nowhere with
    kind := s.kind
    name := s.name
    children := List.replicate count 0
    schema := s.schema
    discriminant := s.discriminant
    scope := s.scope }

@[ext]
structure Site where
  /-- The nodes above, nearest first. -/
  above : List Seed
  seed : Seed
  /-- The nodes that are built at once with this one, each below the one before. -/
  inner : List Seed

namespace Document

variable (d : Document)

/-! ## References -/

def deref (path : String) (j : Json) : Except Fault Json :=
  d.followFrom path (d.root.size + 3) [] j

/-- The fragment that decides the shape of a property. -/
def decisive (path : String) (schema : Json) : Except Fault Json :=
  match schema.ref? with
  | none => .ok schema
  | some pointer => do d.deref path (← d.component pointer path)

def addParameter (path : String) (merged : List ((String × String) × Json)) (j : Json) :
    Except Fault (List ((String × String) × Json)) := do
  let param ← d.deref path j
  if (Build.paramName param).isEmpty then return merged
  else return Run.assign (Build.paramName param, Build.paramPlace param) param merged

def mergeParameters (path : String) (raw : List Json) : Except Fault (List Json) := do
  return (← raw.foldlM (d.addParameter path) []).map Prod.snd

def chosenResponse (path : String) (responses : Json) : Except Fault (Option (String × Json)) :=
  match chooseStatus? responses with
  | none => .ok none
  | some status => do
    let response ← d.deref path ((responses.get? status).getD .null)
    return (Media.schema? response).map fun schema => (status, schema)

end Document

namespace Site

/-- The node and those above it. -/
def line (s : Site) : List Seed := s.seed :: s.above

def path (s : Site) : String := joinPath (s.line.reverse.map fun x => abbreviate x.id)

/-- Whether a node on the way up that is no property has the id. -/
def meets (s : Site) (id : String) : Bool := s.line.any fun x => !x.kind.isProperty && x.id == id

/-- A node below that nothing is built with. -/
def below (s : Site) (x : Seed) : Site := ⟨s.line, x, []⟩

/-- The node with another built below it. -/
def holding (s c : Site) : Site := { s with inner := c.seed :: c.inner }

/-- The node that was built below at once. -/
def element? (s : Site) : Option Site :=
  match s.inner with
  | [] => none
  | x :: rest => some ⟨s.line, x, rest⟩

/-- A node as it is attached: a leaf that closes a cycle where the id is taken on the way up. -/
def checked (s : Site) (x : Seed) : Seed :=
  if s.meets x.id then { x with kind := .circular 0, discriminant := x.id } else x

/-! ## Fragments -/

/-- The element of an array that does not say what it holds. -/
def placeholder (s : Site) : Site :=
  let names := ChildNames.below (s.seed.node 0)
  s.below
    { kind := .scalar .json true
      name := names.name
      discriminant := names.discriminant
      scope := names.scope
      schema := .object [] }

/-- An array with its element; any other node as it is. -/
def filled (c : Site) (element : Site → Json → Except Fault Site) (schema : Json) :
    Except Fault Site :=
  match c.seed.kind with
  | .array =>
    match itemsOf? schema with
    | some items => c.holding <$> element c items
    | none => .ok (c.holding c.placeholder)
  | _ => .ok c

theorem filled_of_not_array {element : Site → Json → Except Fault Site} {schema : Json} {c : Site}
    (other : c.seed.kind ≠ .array) : c.filled element schema = .ok c := by
  unfold filled
  split
  · next array => exact absurd array other
  · rfl

/-- The node for a fragment, below one with some number of children. -/
def ofSchema : Nat → Site → Nat → Json → Except Fault Site
  | 0, _, _, _ => .error .depth
  | depth + 1, s, count, schema =>
    match (s.seed.node count).seedBelow? schema with
    | none => .error (.schema schema s.path)
    | some x => (s.below (s.checked x)).filled (fun c items => ofSchema depth c 0 items) schema

def scopeOf (s : Site) (name : String) : String :=
  if s.seed.kind.isProperty then s.seed.scope ++ "[]" else s.seed.scope ++ "." ++ name

/-- The element that closes a cycle of array components; `id` is that of the array. -/
def circularElement (s : Site) (name : String) (schema : Json) (id : String) : Site :=
  let scope := s.seed.scope ++ "[]"
  let prop := s.below
    { kind := .property .circular false
      name
      discriminant := name
      scope
      schema }
  prop.holding <| prop.below
    { kind := .circular 0
      name
      discriminant := id
      scope
      schema }

def placeholderElement (s : Site) (name : String) : Site :=
  s.below
    { kind := .property (.scalar .json true) false
      name
      discriminant := name
      scope := s.seed.scope ++ "[]"
      schema := .object [] }

/-- A property around what it wraps; it closes a cycle if that does. -/
def around (s : Site) (required : Bool) (c : Site) : Site :=
  match c.seed.kind with
  | .circular _ => { s with seed := { s.seed with kind := .property .circular required } }.holding c
  | _ => s.holding c

variable (d : Document)

/-- A property of an object, or the element of an array property; `followed` has the references
that led to the arrays around it, with the ids of these. -/
def ofProp : Nat → Site → String → Json → Bool → List (String × String) → Except Fault Site
  | 0, _, _, _, _, _ => .error .depth
  | depth + 1, s, name, schema, required, followed =>
    match schema.ref?.bind fun p => followed.lookup p with
    | some id => .ok (s.circularElement name schema id)
    | none => do
      let fragment ← d.decisive s.path schema
      let shape := Build.propShapeOf (Shape.ofSchema fragment)
      let prop := s.below
        { kind := .property shape required
          name
          discriminant := name
          scope := s.scopeOf name
          schema := fragment }
      match shape with
      | .scalar .. | .circular => .ok prop
      | .array =>
        match itemsOf? fragment with
        | some items =>
          let followed := match schema.ref? with
            | some pointer => (pointer, prop.seed.id) :: followed
            | none => followed
          prop.holding <$> ofProp depth prop name items false followed
        | none => .ok (prop.holding (prop.placeholderElement name))
      | .object | .composed | .enum => prop.around required <$> ofSchema schema.size prop 0 schema

/-! ## Children -/

/-- Gather children; each step knows how many there are before it. -/
def gather {α : Type} (step : Nat → α → Except Fault (List Site)) :
    Nat → List α → Except Fault (List Site)
  | _, [] => .ok []
  | count, x :: rest => do
    let more ← step count x
    return more ++ (← gather step (count + more.length) rest)

section Parts

variable (visit : Site → Except Fault (List Site))

def visited (c : Site) : Except Fault (List Site) := do
  let _ ← visit c
  return [c]

/-- The child for a fragment, which is visited. -/
def enter (s : Site) (count : Nat) (schema : Json) : Except Fault (List Site) := do
  visited visit (← ofSchema schema.size s count schema)

def parameter (s : Site) (param : Json) : Except Fault (List Site) :=
  let name := Build.paramName param
  match Location.ofText (Build.paramPlace param) with
  | .cookie => .ok []
  | location => visited visit <| s.below
    { kind := .param location
        (location == .path || ((param.get? "required").bind Json.bool?).getD false)
      name
      discriminant := name
      scope := s.seed.name ++ "." ++ name
      schema := param }

def request (s : Site) (raw : Json) : Except Fault (List Site) := do
  let body ← d.deref s.path raw
  match Media.schema? body with
  | none => return []
  | some schema =>
    let name := s.seed.name ++ "Input"
    visited visit <| s.below
      { kind := .body (((body.get? "required").bind Json.bool?).getD false)
        name
        discriminant := "request"
        scope := name
        schema }

def response (s : Site) (responses : Json) : Except Fault (List Site) := do
  let chosen ← d.chosenResponse s.path responses
  let (status, schema) := chosen.getD (syntheticStatus, syntheticSchema)
  let name := s.seed.name ++ "Response"
  visited visit <| s.below
    { kind := .response status chosen.isNone
      name
      discriminant := status
      scope := name
      schema }

/-- The body of an operation, if it has one and may have one. -/
def requested (s : Site) (method : Method) : Except Fault (List Site) :=
  match s.seed.schema.get? "requestBody" with
  | some raw => if method.isWrite then s.request d visit raw else .ok []
  | none => .ok []

def operation (s : Site) (method : Method) (shared : List Json) : Except Fault (List Site) := do
  let own := ((s.seed.schema.get? "parameters").bind Json.list?).getD []
  let params ← d.mergeParameters s.path (shared ++ own)
  let args ← gather (fun _ param => s.parameter visit param) 0 params
  let body ← s.requested d visit method
  let answer ← s.response d visit ((s.seed.schema.get? "responses").getD .null)
  return args ++ (body ++ answer)

def paramSchema (param : Json) : Json :=
  match param.get? "schema" with
  | some s => s
  | none => (Media.schema? param).getD defaultParamSchema

end Parts

/-- The children of a node. All but objects visit their children, and fail when these do. -/
def children : Nat → Site → Except Fault (List Site)
  | 0, _ => .error .depth
  | fuel + 1, s =>
    match s.seed.kind with
    | .operation method _ shared => s.operation d (children fuel) method shared
    | .param .. => s.enter (children fuel) 0 (paramSchema s.seed.schema)
    | .body _ | .response .. => s.enter (children fuel) 0 s.seed.schema
    | .reference pointer => do s.enter (children fuel) 0 (← d.component pointer s.path)
    | .object _ =>
      gather (fun _ (name, schema) => ([·]) <$>
        ofProp d fuel s name schema ((requiredNames s.seed.schema).contains name) [])
        0 (sortedProperties s.seed.schema)
    | .composed => gather (s.enter (children fuel)) 0 (branchesOf s.seed.schema ["allOf"])
    | .union => gather (s.enter (children fuel)) 0 (branchesOf s.seed.schema ["oneOf", "anyOf"])
    | .array | .property .. => gather (fun _ => visited (children fuel)) 0 s.element?.toList
    | .scalar .. | .enum _ | .circular _ => .ok []

/-! ## Paths -/

/-- The leaves that a wildcard selects below a node, and the node itself if it is one; `fuel` is
for the children of each node, `depth` for the way down. -/
def leaves (w : Wildcard) (fuel : Nat) : Nat → Site → Except Fault (List Site)
  | 0, _ => .error .depth
  | depth + 1, s =>
    if s.seed.kind.isLeaf then .ok [s]
    else do
      gather (fun _ c =>
        if Build.entersChild w (c.seed.node 0) then leaves w fuel depth c else .ok [])
        0 (← s.children d fuel)

def ids (sites : List Site) : List String := sites.map fun c => abbreviate c.seed.id

def find? (id : String) (sites : List Site) : Option Site :=
  sites.find? fun c => c.seed.id == expand id

def descend (p : SelectionPath) (fuel : Nat) :
    List String → Site → List String → Except Fault Site
  | _, s, [] => .ok s
  | reached, s, segment :: rest => do
    let children ← s.children d fuel
    match find? segment children with
    | some c => descend p fuel (reached ++ [segment]) c rest
    | none => .error (Build.notFound p reached (ids children))

end Site

namespace Document

variable (d : Document)

def rootSites : List Site :=
  (Graph.ofDocument d).roots.map fun i => ⟨[], ((Graph.ofDocument d).node i).seed, []⟩

def resolve (p : SelectionPath) (fuel : Nat) : Except Fault Site :=
  match p.segments with
  | [] => .error (Build.notFound p [] (Site.ids d.rootSites))
  | first :: rest =>
    match Site.find? first d.rootSites with
    | some root => root.descend d p fuel [first] rest
    | none => .error (Build.notFound p [] (Site.ids d.rootSites))

def leaves (p : SelectionPath) (depth fuel : Nat) : Except Fault (List Site) := do
  (← d.resolve p fuel).leaves d (p.wildcard.getD .deep) fuel depth

end Document

end RestGraph
