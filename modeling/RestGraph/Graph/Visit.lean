import RestGraph.Graph.Fragment
import RestGraph.Graph.Media
import RestGraph.Text.NameOrder

/-!
# Visiting

A node gets its children the first time it is visited; later visits do nothing. What a visit does
for each kind of node is written with the visit of a child as a parameter, so that only one
definition recurses.
-/

namespace RestGraph

/-- The status of the response that is made up where none can be used. -/
def syntheticStatus : String := "success"

/-- The schema of that response, `{ success: Boolean }`. -/
def syntheticSchema : Json :=
  .object [("type", .text "object"),
    ("properties", .object [("success", .object [("type", .text "boolean")])])]

def defaultParamSchema : Json := .object [("type", .text "string")]

/-- The status of the response to use: `200`, else the least that starts with `2`, else
`default`. -/
def chooseStatus? (responses : Json) : Option String :=
  match responses with
  | .object members =>
    let keys := members.map Prod.fst
    if keys.contains "200" then some "200"
    else
      let successes := (keys.filter (Text.startsWith "2")).mergeSort fun a b => a ≤ b
      match successes with
      | s :: _ => some s
      | [] => if keys.contains "default" then some "default" else none
  | _ => none

/-- The branches of a composition. Properties beside them form one more branch. -/
def branchesOf (schema : Json) (keys : List String) : List Json :=
  let declared := (keys.findSome? (Shape.branches? schema)).getD []
  match (schema.get? "properties").filter Json.isObject with
  | none => declared
  | some properties =>
    let required := match schema.get? "required" with
      | some r => [("required", r)]
      | none => []
    declared ++ [.object ([("type", .text "object"), ("properties", properties)] ++ required)]

def requiredNames (schema : Json) : List String :=
  (((schema.get? "required").bind Json.list?).getD []).filterMap Json.text?

/-- The declared properties in the order of names. -/
def sortedProperties (schema : Json) : List (String × Json) :=
  Text.sortByName Prod.fst (((schema.get? "properties").bind Json.object?).getD [])

namespace Build

variable (d : Document)

/-- A parameter, body or response with the references to it followed. -/
def deref (path : String) (j : Json) : Build Json := do
  liftExcept (d.followFrom path ((← get).extent + 3) [] j)

def paramName (param : Json) : String := (param.textAt? "name").getD ""

def paramPlace (param : Json) : String := (param.textAt? "in").getD "query"

def addParameter (path : String) (merged : List ((String × String) × Json)) (j : Json) :
    Build (List ((String × String) × Json)) := do
  let param ← deref d path j
  if (paramName param).isEmpty then return merged
  else return Run.assign (paramName param, paramPlace param) param merged

/-- The parameters of an operation by name and place, a later one in the place of an earlier. -/
def mergeParameters (path : String) (raw : List Json) : Build (List Json) := do
  return (← raw.foldlM (addParameter d path) []).map Prod.snd

section Kinds

variable (visitChild : Nat → Build Unit)

def visitParameter (i : Nat) (operation : String) (param : Json) : Build Unit := do
  let name := paramName param
  match Location.ofText (paramPlace param) with
  | .cookie => pure ()
  | location =>
    let required := location == .path || ((param.get? "required").bind Json.bool?).getD false
    let child ← attach i
      { kind := .param location required
        name
        discriminant := name
        scope := operation ++ "." ++ name
        schema := param }
    visitChild child

def visitRequest (i : Nat) (operation path : String) (raw : Json) : Build Unit := do
  let body ← deref d path raw
  match Media.schema? body with
  | none => pure ()
  | some schema =>
    let name := operation ++ "Input"
    let child ← attach i
      { kind := .body (((body.get? "required").bind Json.bool?).getD false)
        name
        discriminant := "request"
        scope := name
        schema }
    visitChild child

/-- The status and schema of the response to use, if it has a JSON schema. -/
def chosenResponse (path : String) (responses : Json) : Build (Option (String × Json)) := do
  match chooseStatus? responses with
  | none => return none
  | some status =>
    let response ← deref d path ((responses.get? status).getD .null)
    return (Media.schema? response).map fun schema => (status, schema)

def visitResponse (i : Nat) (operation path : String) (responses : Json) : Build Unit := do
  let chosen ← chosenResponse d path responses
  match chosen with
  | some _ => pure ()
  | none =>
    warn path .syntheticResponse "no JSON success response, substituting \x7b success: Boolean \x7d"
  let (status, schema) := chosen.getD (syntheticStatus, syntheticSchema)
  let name := operation ++ "Response"
  let child ← attach i
    { kind := .response status chosen.isNone
      name
      discriminant := status
      scope := name
      schema }
  visitChild child

def visitOperation (i : Nat) (method : Method) (shared : List Json) : Build Unit := do
  let n ← node i
  let path ← pathOf i
  let own := ((n.schema.get? "parameters").bind Json.list?).getD []
  let params ← mergeParameters d path (shared ++ own)
  params.forM (visitParameter visitChild i n.name)
  match n.schema.get? "requestBody" with
  | some raw => if method.isWrite then visitRequest d visitChild i n.name path raw
  | none => pure ()
  visitResponse d visitChild i n.name path ((n.schema.get? "responses").getD .null)

def enterSchema (i : Nat) (schema : Json) : Build Unit := do
  visitChild (← fromSchema i schema)

def visitParam (i : Nat) : Build Unit := do
  let param := (← node i).schema
  let schema := match param.get? "schema" with
    | some s => s
    | none => (Media.schema? param).getD defaultParamSchema
  enterSchema visitChild i schema

def visitPayload (i : Nat) : Build Unit := do
  enterSchema visitChild i (← node i).schema

def visitReference (i : Nat) (pointer : String) : Build Unit := do
  let target ← liftExcept (d.component pointer (← pathOf i))
  enterSchema visitChild i target

/-- Make the properties of an object; they are visited on their own. -/
def visitObject (i : Nat) : Build Unit := do
  let schema := (← node i).schema
  let required := requiredNames schema
  (sortedProperties schema).forM fun (name, s) => do
    let prop ← fromProp d i name s (required.contains name)
    modifyNode i fun n => { n with props := Run.assign name prop n.props }

def visitBranches (i : Nat) (keys : List String) : Build Unit := do
  (branchesOf (← node i).schema keys).forM (enterSchema visitChild i)

def visitChildren (i : Nat) : Build Unit := do
  (← node i).children.forM visitChild

def visitKind (i : Nat) : Kind → Build Unit
  | .operation method _ shared => visitOperation d visitChild i method shared
  | .param .. => visitParam visitChild i
  | .body _ | .response .. => visitPayload visitChild i
  | .reference pointer => visitReference d visitChild i pointer
  | .object _ => visitObject d i
  | .composed => visitBranches visitChild i ["allOf"]
  | .union => visitBranches visitChild i ["oneOf", "anyOf"]
  | .array | .property .. => visitChildren visitChild i
  | .scalar .. | .enum _ | .circular _ => pure ()

end Kinds

/-- Run a step with a frame on the stack. The frame is taken off in any case. -/
def framed {α : Type} (i : Nat) (tag : Tag) (step : Build α) : Build α := do
  modify (Run.enter i tag)
  try
    let a ← step
    modify Run.leave
    return a
  catch fault =>
    modify Run.leave
    throw fault

def visitWithin : Nat → Nat → Build Unit
  | 0, _ => throw .depth
  | depth + 1, i => do
    let n ← node i
    if n.visited then return ()
    modifyNode i fun n => { n with visited := true }
    framed i n.kind.tag (visitKind d (visitWithin depth) i n.kind)

/-- Give a node its children, unless it has been visited. -/
def visit (i : Nat) : Build Unit := do
  visitWithin d (← get).reach i

def childrenOf (i : Nat) : Build (List Nat) := do
  visit d i
  return (← node i).children

def targetWithin : Nat → Nat → Build Nat
  | 0, _ => throw .depth
  | depth + 1, i => do
    visit d i
    let n ← node i
    match n.children with
    | c :: _ => if n.kind.isWrapper then targetWithin depth c else return i
    | [] => return i

/-- The node below references and wrapping properties, which are visited on the way. -/
def resolveTarget (i : Nat) : Build Nat := do
  targetWithin d (← get).reach i

end Build

end RestGraph
