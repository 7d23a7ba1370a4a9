import RestGraph.Document.Method
import RestGraph.Json.Pointer
import RestGraph.Naming.Pointer

/-!
# Description documents

A REST description is a JSON value. Its operations are listed path by path, and the components that
a reference can name are looked up by pointer.
-/

namespace RestGraph

structure Document where
  root : Json
deriving Inhabited

/-- An operation as it is found under its path. -/
structure OperationEntry where
  method : Method
  path : String
  operation : Json
  /-- The parameters declared for all operations of the path. -/
  shared : List Json

namespace Document

def title? (d : Document) : Option String := (d.root.pointer? "/info/title").bind Json.text?

/-- The address of the first server. -/
def baseUrl? (d : Document) : Option String := (d.root.pointer? "/servers/0/url").bind Json.text?

/-- The component that a reference names; references into other places are not followed. -/
def lookup? (d : Document) (pointer : String) : Option Json :=
  if componentSections.any fun s => Text.startsWith s pointer then
    (Text.after? "#" pointer).bind d.root.pointer?
  else none

def itemOperations (path : String) (item : Json) : List OperationEntry :=
  let shared := ((item.get? "parameters").bind Json.list?).getD []
  Method.all.filterMap fun method =>
    match item.get? method.key with
    | some operation =>
      if operation.isObject then some ⟨method, path, operation, shared⟩ else none
    | none => none

def operations (d : Document) : List OperationEntry :=
  (((d.root.get? "paths").bind Json.object?).getD []).flatMap fun (path, item) =>
    itemOperations path item

end Document

end RestGraph
