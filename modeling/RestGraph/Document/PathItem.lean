import RestGraph.Document.Method
import RestGraph.Json.Basic

/-!
# Path items

The description model knows a fixed set of path-item keys. All others are removed before the model
is checked, extension keys apart.
-/

namespace RestGraph.PathItem

def standardKeys : List String :=
  ["summary", "description", "servers", "parameters", "$ref",
    "get", "post", "put", "delete", "patch", "options", "head", "trace"]

/-- Standard keys may be capitalised in any way; the mark of an extension may not. -/
def keeps (key : String) : Bool :=
  standardKeys.contains (Text.asciiLower key) || Text.startsWith "x-" key

/-- Remove a member; the last member moves into the gap. -/
def swapRemove (key : String) : List (String × Json) → List (String × Json)
  | [] => []
  | (k, v) :: rest =>
    if k = key then
      match rest.getLast? with
      | some last => last :: rest.dropLast
      | none => []
    else (k, v) :: swapRemove key rest

/-- Remove the unknown keys one after the other, in the order in which they stand at the start. -/
def stripMembers (members : List (String × Json)) : List (String × Json) :=
  ((members.map Prod.fst).filter fun k => !keeps k).foldl (fun ms k => swapRemove k ms) members

def strip : Json → Json
  | .object members => .object (stripMembers members)
  | j => j

def stripAll : Json → Json
  | .object items => .object (items.map fun (path, item) => (path, strip item))
  | j => j

def stripDocument : Json → Json
  | .object members =>
    .object (members.map fun (k, v) => if k = "paths" then (k, stripAll v) else (k, v))
  | j => j

end RestGraph.PathItem
