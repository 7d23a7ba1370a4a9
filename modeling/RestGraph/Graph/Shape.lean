import RestGraph.Graph.Node
import RestGraph.Json.Writer

/-!
# Shapes

What a schema fragment describes, decided from its keywords alone. The tests are tried in a fixed
order, so a fragment has one shape.
-/

namespace RestGraph

inductive Shape where
  | reference (pointer : String)
  | array
  | composed
  | union
  | object (synthetic : Bool)
  | enum (values : List String)
  | scalar (type : ScalarType)
  | unknown
deriving DecidableEq, Repr

namespace Shape

/-- The `type` keyword; of a list of types the first that is not null. -/
def keyword? (schema : Json) : Option String :=
  match schema.get? "type" with
  | some (.text s) => some s
  | some (.list items) => (items.filterMap Json.text?).find? (· != "null")
  | _ => none

/-- The branches under a key, if there are any. -/
def branches? (schema : Json) (key : String) : Option (List Json) :=
  ((schema.get? key).bind Json.list?).filter fun bs => !bs.isEmpty

def hasBranches (schema : Json) (key : String) : Bool := (branches? schema key).isSome

def declaresProperties (schema : Json) : Bool :=
  ((schema.get? "properties").bind Json.object?).any fun ps => !ps.isEmpty

def enumText : Json → String
  | .text s => s
  | j => j.compact

/-- The values of an enum as text, null left out. -/
def enumValues (values : List Json) : List String :=
  (values.filter fun v => !v.isNull).map enumText

/-- The shape of a fragment that is neither reference nor array nor structured. -/
def plain (schema : Json) (keyword : Option String) : Shape :=
  match (schema.get? "enum").bind Json.list? with
  | some values => .enum (enumValues values)
  | none => match keyword.bind ScalarType.ofKeyword? with
    | some type => .scalar type
    | none => .unknown

/-- The shape of a fragment that is neither reference nor array. -/
def structured (schema : Json) (keyword : Option String) : Shape :=
  if keyword = none ∨ keyword = some "object" then
    if hasBranches schema "allOf" then .composed
    else if hasBranches schema "oneOf" || hasBranches schema "anyOf" then .union
    else if keyword = some "object" ∨ schema.has "properties" then
      .object !(declaresProperties schema)
    else plain schema keyword
  else plain schema keyword

def ofSchema (schema : Json) : Shape :=
  match schema.ref? with
  | some pointer => .reference pointer
  | none =>
    let keyword := keyword? schema
    if keyword = some "array" ∨ (keyword = none ∧ schema.has "items") then .array
    else structured schema keyword

end Shape

end RestGraph
