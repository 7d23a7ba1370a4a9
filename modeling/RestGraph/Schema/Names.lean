import RestGraph.Schema.Draft

/-!
# Naming declarations

A declaration wants its base name. Where declarations of different content want the same name, the
later ones are prefixed with the names above them until a free one is found, and at last numbered.
Declarations of the same content share a name and are written once.
-/

namespace RestGraph

/-- Names that no declaration may take. -/
def reservedTypeNames : List String :=
  ["Query", "Mutation", "JSON", "String", "Int", "Float", "Boolean", "ID"]

/-- The final name of a declaration, and whether it is the one that is written. -/
structure Assigned where
  name : String
  primary : Bool
deriving DecidableEq, Repr

structure TypeNames where
  entries : List Assigned

namespace TypeNames

def nameAt (ns : TypeNames) (i : Nat) : String := (ns.entries[i]?.map Assigned.name).getD ""

def isPrimary (ns : TypeNames) (i : Nat) : Bool := ns.entries[i]?.any Assigned.primary

def render (ns : TypeNames) : TypeRef → String
  | .scalar type => type.graphqlName
  | .named i => ns.nameAt i
  | .list element => "[" ++ ns.render element ++ "]"

end TypeNames

namespace TypeDecl

def keyAt (decls : List TypeDecl) (i : Nat) : String := (decls[i]?.map TypeDecl.key).getD ""

def typeKey (decls : List TypeDecl) : TypeRef → String
  | .scalar type => type.graphqlName
  | .named i => keyAt decls i
  | .list element => "[" ++ typeKey decls element ++ "]"

/-- A text that declarations of the same content have in common. -/
def signature (decls : List TypeDecl) (t : TypeDecl) : String :=
  match t.definition with
  | .enum values => "enum " ++ Text.join " " values
  | .object fields =>
    (if t.input then "input" else "type") ++ String.join (fields.map fun f =>
      " " ++ f.jsonName ++ ":" ++ typeKey decls f.type ++ (if f.required then "!" else ""))

/-- The type names above a node that are not said by the base name, nearest first; a name is not
repeated. -/
def contextWords (g : Graph) (base : String) (i : Nat) : List String :=
  (g.ancestors i).foldl (fun words a =>
    let n := g.node a
    let names := match n.kind with
      | .operation .. => true
      | kind => kind.isStructured
    let word := Naming.typeName n.name
    if names && words.getLast? != some word && !Text.startsWith word base then words ++ [word]
    else words) []

/-- The base behind more and more words, the nearest word last. -/
def prefixed (base : String) : String → List String → List String
  | _, [] => []
  | front, word :: words => (word ++ front ++ base) :: prefixed base (word ++ front) words

/-- The names to try for a declaration, the best first. -/
def candidates (g : Graph) (t : TypeDecl) : List String :=
  t.base :: prefixed t.base "" (contextWords g t.base t.node)

def chooseName (g : Graph) (taken : List String) (t : TypeDecl) : String :=
  match (candidates g t).find? fun name => !taken.contains name with
  | some name => name
  | none => Naming.firstFree taken t.base taken.length 2

/-- A step of naming: the names taken, and for each content the name it got. -/
structure Naming where
  taken : List String
  shapes : List ((String × String) × String)
  assigned : List (Nat × Assigned)

def nameNext (g : Graph) (decls : List TypeDecl) (n : Naming) (entry : TypeDecl × Nat) : Naming :=
  let (t, i) := entry
  let shape := (t.base, signature decls t)
  match n.shapes.lookup shape with
  | some name => { n with assigned := (i, ⟨name, false⟩) :: n.assigned }
  | none =>
    let name := chooseName g n.taken t
    { taken := name :: n.taken
      shapes := (shape, name) :: n.shapes
      assigned := (i, ⟨name, true⟩) :: n.assigned }

/-- Name all declarations. Those of named components choose first. -/
def assignNames (r : Run) (decls : List TypeDecl) : TypeNames :=
  let (components, others) :=
    decls.zipIdx.partition fun (t, _) => (r.registeredName? t.node).isSome
  let n := (components ++ others).foldl (nameNext r.graph decls) ⟨reservedTypeNames, [], []⟩
  ⟨(List.range decls.length).map fun i => (n.assigned.lookup i).getD ⟨"", true⟩⟩

end TypeDecl

namespace Draft

def typeNames (t : Draft) : TypeNames := TypeDecl.assignNames t.run t.decls

/-- The declarations that are written, with their places. -/
def written (t : Draft) : List (TypeDecl × Nat) :=
  t.decls.zipIdx.filter fun (_, i) => t.typeNames.isPrimary i

end Draft

end RestGraph
