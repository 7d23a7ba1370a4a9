import RestGraph.Graph.Consolidate
import RestGraph.Schema.Decl
import RestGraph.Schema.Fields

/-!
# Drafting declarations

Types are declared bottom-up, so that what a declaration refers to stands before it. Nodes with the
same key share a declaration, which gathers the fields of all of them.
-/

namespace RestGraph

/-- A run and what has been declared in it. -/
structure Draft where
  run : Run
  decls : List TypeDecl
  /-- Whether some type is any JSON value. -/
  usesJson : Bool
  /-- The enums that were replaced by a scalar. -/
  fallbacks : List Nat

abbrev Drafting := ExceptT Fault (StateM Draft)

namespace Draft

def start (r : Run) : Draft := ⟨r, [], false, []⟩

/-- The place of the declaration with a key. -/
def indexOf? (s : Draft) (key : String) : Option Nat := s.decls.findIdx? fun t => t.key == key

/-- Named components that were merged away and that nothing refers to any more. -/
def isPruned (r : Run) (i : Nat) : Bool :=
  r.isAbsorbed i &&
    match ((r.graph.node i).parent.map fun p => (r.graph.node p).kind) with
    | some (.reference pointer) => r.refCount pointer ≤ 0
    | _ => true

end Draft

namespace Drafting

/-- Do a step of the run underneath. -/
def lift {α : Type} (step : Build α) : Drafting α :=
  ExceptT.mk fun s =>
    let (result, run) := step.run s.run
    (result, { s with run })

def graph : Drafting Graph := return (← get).run.graph

def node (i : Nat) : Drafting Node := return (← get).run.graph.node i

def put (s : Draft) : Drafting Unit := set s

def onRun (f : Run → Run) : Drafting Unit := modify fun s => { s with run := f s.run }

def scalar (type : ScalarType) : Drafting TypeRef := do
  if type == .json then modify fun s => { s with usesJson := true }
  return .scalar type

/-- The declaration for a node: the one with its key if there is one, which then gains the new
fields, else a new one. -/
def declare (target : Nat) (side : Side) (own : Definition) : Drafting TypeRef := do
  let n ← node target
  let input := side == .input && own.isObject
  let key := if input then n.id ++ "/input" else n.id
  let s ← get
  match s.indexOf? key with
  | some index =>
    let decls := s.decls.modify index fun t => { t with definition := t.definition.merge own }
    put { s with decls }
    return .named index
  | none =>
    let name := Naming.typeName n.name
    let base := if input && !name.endsWith "Input" then name ++ "Input" else name
    put { s with
      run := s.run.markGenerated key
      decls := s.decls ++
        [{ node := target, key, base, input, definition := own, description := n.description? }] }
    return .named s.decls.length

/-- An enum is declared when all its values are names; otherwise its scalar stands for it. -/
def enumType (target : Nat) (values : List String) : Drafting TypeRef := do
  let values := values.eraseDups
  if !values.isEmpty && values.all Naming.isEnumValue then
    declare target .output (.enum values)
  else
    let s ← get
    if !s.fallbacks.contains target then
      put { s with
        fallbacks := target :: s.fallbacks
        run := s.run.warn (s.run.graph.pathOf target) .enumFallback
          "enum values are not valid GraphQL names, using the underlying scalar" }
    let schema := (← node target).schema
    return .scalar (((Shape.keyword? schema).bind ScalarType.ofKeyword?).getD .string)

variable (d : Document) (c : Collection)

section Types

variable (typeOf : Nat → Side → Drafting (Option TypeRef))

/-- The type of a property: of its value if it is a scalar, of its element if it is an array, and
else of the node that it wraps. -/
def propTypeWithin : Nat → Nat → Side → Drafting (Option TypeRef)
  | 0, _, _ => throw .depth
  | depth + 1, prop, side => do
    lift (Build.visit d prop)
    let n ← node prop
    match n.kind, n.children with
    | .property (.scalar type _) _, _ => return some (← scalar type)
    | .property .circular _, _ => return none
    | .property .array _, item :: _ =>
      return (← propTypeWithin depth item side).map .list
    | .property _ _, child :: _ => typeOf child side
    | .property _ _, [] => return some (← scalar .json)
    | _, _ => return none

/-- The declarations of fields; one that closes a cycle is left out. -/
def fieldDecls (side : Side) : List VisibleField → Drafting (List FieldDecl)
  | [] => return []
  | f :: rest => do
    match f.name with
    | none => fieldDecls side rest
    | some name =>
      match ← propTypeWithin d typeOf (← get).run.reach f.prop side with
      | none => fieldDecls side rest
      | some type =>
        let g ← graph
        let n := g.node f.prop
        let decl : FieldDecl :=
          { jsonName := f.jsonName
            name
            type
            required := match n.kind with
              | .property _ required => required
              | _ => false
            description := n.description?
            comment := if hasPlaceholder g f.prop then some placeholderComment else f.comment }
        return decl :: (← fieldDecls side rest)

/-- The declaration of a node with fields. Without any field it is any JSON value. -/
def objectType (target : Nat) (side : Side) : Drafting TypeRef := do
  match (← node target).kind with
  | .composed | .union => discard (lift (Build.consolidate d target))
  | _ => lift (Build.visit d target)
  let selection := match side with
    | .output => some c
    | .input => none
  let fields ← fieldDecls d typeOf side (visibleFields (← graph) target selection)
  if fields.isEmpty then scalar .json else declare target side (.object fields)

end Types

/-- The type of a schema node; a cycle has none. -/
def nodeTypeWithin : Nat → Nat → Side → Drafting (Option TypeRef)
  | 0, _, _ => throw .depth
  | depth + 1, i, side => do
    let target ← lift (Build.resolveTarget d i)
    let n ← node target
    match n.kind with
    | .scalar type _ => return some (← scalar type)
    | .enum values => return some (← enumType target values)
    | .object true => return some (← scalar .json)
    | .object false | .composed | .union =>
      return some (← objectType d c (nodeTypeWithin depth) target side)
    | .array =>
      match n.children with
      | item :: _ => return (← nodeTypeWithin depth item side).map .list
      | [] => return some (.list (← scalar .json))
    | .circular _ => return none
    | _ => return some (← scalar .json)

def nodeType (i : Nat) (side : Side) : Drafting (Option TypeRef) := do
  nodeTypeWithin d c (← get).run.reach i side

/-! ## Operations -/

/-- Declare what the selection contains of the responses. -/
def declareContainers : Drafting Unit :=
  c.containers.forM fun i => do
    let r := (← get).run
    match (r.graph.node i).kind with
    | .circular _ => pure ()
    | _ =>
      if r.graph.inArguments i || Draft.isPruned r i then pure ()
      else discard (nodeType d c i .output)

/-- The type of the first child, if there is one, with a frame on the stack meanwhile. A failure
leaves the frame there. -/
def childType (i : Nat) (tag : Tag) (child : Option Nat) : Drafting (Option TypeRef) := do
  onRun (Run.enter i tag)
  let type ← match child with
    | some schema => nodeType d c schema .input
    | none => pure none
  onRun Run.leave
  return type

/-- Take in one child of an operation: a parameter, the body or the response. -/
def addChild (decl : OperationDecl) (i : Nat) : Drafting OperationDecl := do
  let n ← node i
  let first := n.children.head?
  let taken := decl.args.map ArgDecl.name
  match n.kind with
  | .param location required =>
    let type ← childType d c i .param first
    return { decl with args := decl.args ++
      [{ name := Naming.unique taken (Naming.fieldName n.name)
         location := some location
         wireName := n.name
         type := type.getD (.scalar .string)
         required
         description := n.description? }] }
  | .body required =>
    let type ← childType d c i .body first
    let g ← graph
    let comment :=
      if first.any (hasPlaceholder g) then some ("input " ++ placeholderComment) else decl.comment
    let name := Naming.unique taken "input"
    let type ← match type with
      | some t => pure t
      | none => scalar .json
    return { decl with
      comment
      args := decl.args ++
        [{ name, location := none, wireName := name, type, required, description := none }]
      body := some (i, name) }
  | .response .. =>
    let type ← match first with
      | some schema => nodeType d c schema .output
      | none => pure none
    let returns ← match type with
      | some t => pure t
      | none => scalar .json
    let g ← graph
    let comment := if first.any (hasPlaceholder g) then some placeholderComment else decl.comment
    return { decl with returns, comment, response := some i }
  | _ => return decl

def operation (i : Nat) : Drafting OperationDecl := do
  let children ← lift (Build.childrenOf d i)
  let g ← graph
  let n := g.node i
  match n.kind with
  | .operation method path _ =>
    let text := match n.schema.get? "summary" with
      | some j => j.text?
      | none => n.schema.textAt? "description"
    onRun (Run.enter i .operation)
    let decl ← children.foldlM (addChild d c)
      { node := i
        name := n.name
        method
        path
        description := (text.map Text.trim).filter fun s => !s.isEmpty
        args := []
        returns := .scalar .json
        response := none
        body := none
        comment := none }
    onRun Run.leave
    return decl
  | _ => throw (.notAnOperation (g.pathOf i))

end Drafting

end RestGraph
