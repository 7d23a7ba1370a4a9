import RestGraph.Graph.Run
import RestGraph.Naming.Basic

/-!
# The first graph

A run starts with the operations of its description as roots. Nothing else is built.
-/

namespace RestGraph

namespace Graph

def operationSeed (e : OperationEntry) (name : String) : Seed :=
  { kind := .operation e.method e.path e.shared
    name
    discriminant := e.path
    scope := name
    schema := e.operation }

/-- Add operations under names that differ from each other and from those taken. -/
def addOperations (g : Graph) (taken : List String) : List OperationEntry → Graph
  | [] => g
  | e :: rest =>
    let wanted := Naming.operationName e.method e.path (e.operation.textAt? "operationId")
    let name := Naming.unique taken wanted
    addOperations (g.addRoot (operationSeed e name)) (name :: taken) rest

def ofDocument (d : Document) : Graph := addOperations empty [] d.operations

end Graph

def Run.ofDocument (d : Document) : Run := Run.start d (Graph.ofDocument d)

end RestGraph
