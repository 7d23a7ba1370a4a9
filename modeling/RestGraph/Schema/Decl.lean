import RestGraph.Graph.Node
import RestGraph.Text.NameOrder

/-!
# Declarations

The GraphQL types and root fields that a selection needs. A type refers to another by its place in
the list of declarations; names are given later.
-/

namespace RestGraph

/-- Which side of an operation a type describes. -/
inductive Side where
  /-- Response data, reduced to the selected fields. -/
  | output
  /-- Arguments, with every field. -/
  | input
deriving DecidableEq, Repr

inductive TypeRef where
  | scalar (type : ScalarType)
  | named (index : Nat)
  | list (element : TypeRef)
deriving DecidableEq, Repr

/-- The type without its list brackets. -/
def TypeRef.core : TypeRef → TypeRef
  | list element => element.core
  | t => t

structure FieldDecl where
  jsonName : String
  name : String
  type : TypeRef
  required : Bool
  description : Option String
  comment : Option String
deriving DecidableEq, Repr

inductive Definition where
  | enum (values : List String)
  | object (fields : List FieldDecl)
deriving DecidableEq, Repr

def Definition.isObject : Definition → Bool
  | object _ => true
  | enum _ => false

structure TypeDecl where
  /-- The first node that asked for the declaration. -/
  node : Nat
  /-- The id of the node, marked for inputs; nodes with one key share a declaration. -/
  key : String
  /-- The name before collisions are resolved. -/
  base : String
  input : Bool
  definition : Definition
  description : Option String

structure ArgDecl where
  name : String
  /-- Where the argument is sent; the body is none of the places. -/
  location : Option Location
  wireName : String
  type : TypeRef
  required : Bool
  description : Option String

/-- A field of `Query` or `Mutation`. -/
structure OperationDecl where
  node : Nat
  name : String
  method : Method
  path : String
  description : Option String
  args : List ArgDecl
  returns : TypeRef
  response : Option Nat
  /-- The body node and the argument that carries it. -/
  body : Option (Nat × String)
  comment : Option String

/-- The fields of the first declaration and those of the second whose keys are new, in the order of
keys if any was new. -/
def mergeFields (fields more : List FieldDecl) : List FieldDecl :=
  let added := more.filter fun f => !fields.any fun g => g.jsonName == f.jsonName
  if added.isEmpty then fields else Text.sortByName FieldDecl.jsonName (fields ++ added)

def Definition.merge : Definition → Definition → Definition
  | object fields, object more => object (mergeFields fields more)
  | own, _ => own

end RestGraph
