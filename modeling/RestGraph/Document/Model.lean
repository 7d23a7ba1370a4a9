import RestGraph.Json.Basic

/-!
# The description model

The shape that a description must have before it is used. Unknown keys are ignored. An optional
field may be null; a list or map that may be left out may not be null. An object that holds a string
under `$ref` stands for any component.
-/

namespace RestGraph.Model

def isText : Json → Bool
  | .text _ => true
  | _ => false

def isFlag : Json → Bool
  | .bool _ => true
  | _ => false

def isListOf (check : Json → Bool) : Json → Bool
  | .list items => items.all check
  | _ => false

def isMapOf (check : Json → Bool) : Json → Bool
  | .object members => members.all fun (_, j) => check j
  | _ => false

def required (j : Json) (key : String) (check : Json → Bool) : Bool := (j.get? key).any check

/-- A field that may be left out but not be null. -/
def present (j : Json) (key : String) (check : Json → Bool) : Bool := (j.get? key).all check

/-- A field that may be left out or null. -/
def optional (j : Json) (key : String) (check : Json → Bool) : Bool :=
  present j key fun v => v.isNull || check v

def orReference (check : Json → Bool) (j : Json) : Bool := j.ref?.isSome || check j

def isServer (j : Json) : Bool := j.isObject && required j "url" isText

def isTag (j : Json) : Bool := j.isObject && required j "name" isText

def locations : List String := ["path", "query", "header", "cookie"]

def isParameter (j : Json) : Bool :=
  j.isObject && required j "name" isText &&
    required j "in" (fun v => v.text?.any locations.contains) && optional j "required" isFlag

def isRequestBody (j : Json) : Bool := j.isObject && required j "content" (isMapOf Json.isObject)

def isOperation (j : Json) : Bool :=
  j.isObject && optional j "operationId" isText && optional j "summary" isText &&
    optional j "description" isText && present j "tags" (isListOf isText) &&
    optional j "deprecated" isFlag && present j "parameters" (isListOf (orReference isParameter)) &&
    optional j "requestBody" (orReference isRequestBody) &&
    optional j "responses" (isMapOf Json.isObject)

def operationKeys : List String :=
  ["get", "put", "post", "delete", "options", "head", "patch", "trace"]

def isPathItem (j : Json) : Bool :=
  j.isObject && operationKeys.all (fun key => optional j key isOperation) &&
    present j "parameters" (isListOf (orReference isParameter))

def typeNames : List String :=
  ["boolean", "integer", "number", "string", "array", "object", "null"]

def isTypeName (j : Json) : Bool := j.text?.any typeNames.contains

def isTypeSet (j : Json) : Bool := isTypeName j || isListOf isTypeName j

/-- A schema, down to `depth` levels of properties. -/
def isSchema : Nat → Json → Bool
  | 0, _ => false
  | depth + 1, j =>
    j.ref?.isSome ||
      (j.isObject && optional j "type" isTypeSet &&
        present j "properties" (isMapOf (isSchema depth)) &&
        present j "required" (isListOf isText) && present j "enum" (isListOf fun _ => true) &&
        optional j "description" isText)

def isComponents (depth : Nat) (j : Json) : Bool :=
  j.isObject && present j "schemas" (isMapOf (isSchema depth))

def isInfo (j : Json) : Bool :=
  j.isObject && required j "title" isText && required j "version" isText

def isDescription (j : Json) : Bool :=
  j.isObject && required j "openapi" isText && required j "info" isInfo &&
    present j "servers" (isListOf isServer) && present j "tags" (isListOf isTag) &&
    optional j "paths" (isMapOf isPathItem) && optional j "components" (isComponents j.size)

end RestGraph.Model
