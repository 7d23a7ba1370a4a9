import RestGraph.Document.Method
import RestGraph.Json.Basic
import RestGraph.Text.Blank

/-!
# Nodes

One vertex of the graph: an operation, one of its parameters, its body or response, a reference, a
schema, a property, or the leaf that closes a cycle. The id of a node is the label of its kind and
a discriminant that tells it from its siblings. Other nodes are named by handles, their positions in
the graph.
-/

namespace RestGraph

inductive ScalarType where
  | string
  | int
  | float
  | boolean
  /-- Any JSON value. -/
  | json
deriving DecidableEq, Repr

namespace ScalarType

/-- The scalar for a `type` keyword. -/
def ofKeyword? : String → Option ScalarType
  | "string" => some string
  | "integer" => some int
  | "number" => some float
  | "boolean" => some boolean
  | _ => none

def graphqlName : ScalarType → String
  | string => "String"
  | int => "Int"
  | float => "Float"
  | boolean => "Boolean"
  | json => "JSON"

end ScalarType

/-- What the value of a property is. -/
inductive PropShape where
  | scalar (type : ScalarType) (placeholder : Bool)
  | object
  | array
  | enum
  | composed
  | circular
deriving DecidableEq, Repr

def PropShape.label : PropShape → String
  | scalar .. => "prop:scalar"
  | object => "prop:obj"
  | array => "prop:array"
  | enum => "prop:enum"
  | composed => "prop:comp"
  | circular => "prop:circ"

/-- Whether the property wraps one node of its own. -/
def PropShape.isWrapper : PropShape → Bool
  | object | composed | enum | circular => true
  | scalar .. | array => false

inductive Location where
  | path
  | query
  | header
  | cookie
deriving DecidableEq, Repr

/-- The place that the text names; a text that names none means the query. -/
def Location.ofText (s : String) : Location :=
  match Text.asciiLower s with
  | "path" => path
  | "header" => header
  | "cookie" => cookie
  | _ => query

inductive Kind where
  | scalar (type : ScalarType) (placeholder : Bool)
  | enum (values : List String)
  /-- An object is synthetic when it declares no properties. -/
  | object (synthetic : Bool)
  | array
  | reference (pointer : String)
  /-- All branches hold. -/
  | composed
  /-- One or any of the branches holds. -/
  | union
  /-- The edge back to the node that would be entered again. -/
  | circular (target : Nat)
  | operation (method : Method) (path : String) (shared : List Json)
  | param (location : Location) (required : Bool)
  | body (required : Bool)
  | response (status : String) (synthetic : Bool)
  | property (shape : PropShape) (required : Bool)
deriving Repr

/-- A kind without its data. -/
inductive Tag where
  | scalar | enum | object | array | reference | composed | union | circular
  | operation | param | body | response | property
deriving DecidableEq, Repr

namespace Kind

def tag : Kind → Tag
  | scalar .. => .scalar
  | enum _ => .enum
  | object _ => .object
  | array => .array
  | reference _ => .reference
  | composed => .composed
  | union => .union
  | circular _ => .circular
  | operation .. => .operation
  | param .. => .param
  | body _ => .body
  | response .. => .response
  | property .. => .property

def label : Kind → String
  | scalar .. => "scalar"
  | enum _ => "enum"
  | object _ => "obj"
  | array => "array"
  | reference _ => "ref"
  | composed => "comp"
  | union => "union"
  | circular _ => "circular"
  | operation method .. => method.key
  | param .. => "param"
  | body _ => "body"
  | response .. => "res"
  | property shape _ => shape.label

def isProperty (k : Kind) : Bool := k.tag == .property

/-- Whether a selection path may end here. -/
def isLeaf : Kind → Bool
  | scalar .. | enum _ | circular _ => true
  | object synthetic => synthetic
  | property (.scalar ..) _ | property .enum _ | property .circular _ => true
  | _ => false

/-- Whether the node asks for a declaration of its own. -/
def isContainer : Kind → Bool
  | object synthetic => !synthetic
  | composed | union | circular _ => true
  | _ => false

/-- Whether the node carries fields. -/
def isStructured : Kind → Bool
  | object synthetic => !synthetic
  | composed | union => true
  | _ => false

def isCircular : Kind → Bool
  | circular _ | property .circular _ => true
  | _ => false

def isArray : Kind → Bool
  | array | property .array _ => true
  | _ => false

/-- Whether the node only leads to the one below it. -/
def isWrapper : Kind → Bool
  | reference _ => true
  | property shape _ => shape.isWrapper
  | _ => false

end Kind

def idOf (kind : Kind) (discriminant : String) : String := kind.label ++ ":" ++ discriminant

/-- What is known of a node before it has a place in the graph. -/
structure Seed where
  kind : Kind
  name : String
  discriminant : String
  scope : String
  schema : Json

def Seed.id (s : Seed) : String := idOf s.kind s.discriminant

structure Node where
  kind : Kind
  name : String
  parent : Option Nat
  children : List Nat
  /-- The fields of an object, or of a composition after its branches were merged. -/
  props : List (String × Nat)
  visited : Bool
  consolidated : Bool
  /-- The fragment that the node was made from. -/
  schema : Json
  discriminant : String
  /-- The dotted chain of properties from the nearest named ancestor. -/
  scope : String
  /-- The ids of the ancestors that are no properties, the node itself included, nearest first. -/
  lineage : List (String × Nat)

namespace Node

def id (n : Node) : String := idOf n.kind n.discriminant

def isProperty (n : Node) : Bool := n.kind.isProperty

def isLeaf (n : Node) : Bool := n.kind.isLeaf

def description? (n : Node) : Option String :=
  ((n.schema.textAt? "description").map Text.trim).filter fun s => !s.isEmpty

/-- The node that a handle without a node reads as. -/
def nowhere : Node :=
  ⟨.array, "", none, [], [], true, true, .null, "", "", []⟩

end Node

end RestGraph
