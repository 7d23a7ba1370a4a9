import RestGraph.Document.Basic
import RestGraph.Fault
import RestGraph.Selection.Filter

/-!
# Runs

What one run over a description has built and learnt so far: the graph, the stack of nodes that are
being visited, the registries of names, references and merged branches, and the warnings. A step of
a run may fail; what it did before the failure stays.
-/

namespace RestGraph

structure Frame where
  node : Nat
  tag : Tag
deriving DecidableEq, Repr

inductive WarningKind where
  /-- A node would have been entered again. -/
  | circularReference
  /-- An operation has no usable response. -/
  | syntheticResponse
  /-- An array does not say what it holds. -/
  | missingItems
  /-- Some value of an enum is no GraphQL name. -/
  | enumFallback
deriving DecidableEq, Repr

def WarningKind.name : WarningKind → String
  | circularReference => "CircularReference"
  | syntheticResponse => "SyntheticResponse"
  | missingItems => "MissingItems"
  | enumFallback => "EnumFallback"

/-- A substitution that was made, and the path of the node where it was made. -/
structure Warning where
  location : String
  kind : WarningKind
  message : String
deriving DecidableEq, Repr

structure Run where
  graph : Graph
  /-- The nodes being visited, innermost first. -/
  stack : List Frame
  /-- The component names of the nodes below references, in order of registration. -/
  registered : List (Nat × String)
  /-- The keys of the declarations made so far. -/
  generated : List String
  refCounts : List (String × Int)
  /-- For each merged composition, the branches that went into it. -/
  consumed : List (Nat × List Nat)
  /-- All branches that went into some composition. -/
  absorbed : List Nat
  filter : Option PathFilter
  warnings : List Warning
  /-- The size of all fragments that nodes can be made from. -/
  extent : Nat

namespace Run

/-- A depth that no traversal reaches: on one way down, references differ from each other, between
two of them the arrays entered by reference differ too, and between two of these fragments
shrink. -/
def reach (r : Run) : Nat := r.graph.size + Nat.pow (2 * r.extent + 16) 3

def enter (node : Nat) (tag : Tag) (r : Run) : Run := { r with stack := ⟨node, tag⟩ :: r.stack }

def leave (r : Run) : Run := { r with stack := r.stack.tail }

def inContextOf (r : Run) (tag : Tag) : Bool := r.stack.any fun f => f.tag == tag

/-- Set the value of a key in place, or append the key. -/
def assign {α β : Type} [DecidableEq α] (key : α) (value : β) : List (α × β) → List (α × β)
  | [] => [(key, value)]
  | (k, v) :: rest => if k = key then (k, value) :: rest else (k, v) :: assign key value rest

def register (node : Nat) (name : String) (r : Run) : Run :=
  { r with registered := assign node name r.registered }

def registeredName? (r : Run) (node : Nat) : Option String := r.registered.lookup node

/-- The first node that was registered under a name. -/
def namedType? (r : Run) (name : String) : Option Nat :=
  (r.registered.find? fun (_, n) => n == name).map Prod.fst

def isGenerated (r : Run) (key : String) : Bool := r.generated.contains key

def markGenerated (key : String) (r : Run) : Run :=
  if r.isGenerated key then r else { r with generated := key :: r.generated }

def refCount (r : Run) (pointer : String) : Int := (r.refCounts.lookup pointer).getD 0

def addRef (pointer : String) (r : Run) : Run :=
  { r with refCounts := assign pointer (r.refCount pointer + 1) r.refCounts }

/-- Give back a reference; a pointer that was never counted stays so. -/
def releaseRef (pointer : String) (r : Run) : Run :=
  match r.refCounts.lookup pointer with
  | some n => { r with refCounts := assign pointer (n - 1) r.refCounts }
  | none => r

def consumedBy? (r : Run) (node : Nat) : Option (List Nat) := r.consumed.lookup node

def isAbsorbed (r : Run) (node : Nat) : Bool := r.absorbed.contains node

def absorb (node : Nat) (branches : List Nat) (r : Run) : Run :=
  { r with
    consumed := assign node branches r.consumed
    absorbed := r.absorbed ++ branches }

def warn (location : String) (kind : WarningKind) (message : String) (r : Run) : Run :=
  { r with warnings := r.warnings ++ [⟨location, kind, message⟩] }

def setFilter (f : PathFilter) (r : Run) : Run := { r with filter := some f }

def onGraph (f : Graph → Graph) (r : Run) : Run := { r with graph := f r.graph }

/-- Make room for a fragment that does not come from the description. -/
def widen (fragment : Json) (r : Run) : Run := { r with extent := r.extent + fragment.size }

/-- A run over a description before anything was visited. -/
def start (d : Document) (graph : Graph) : Run :=
  { graph
    stack := []
    registered := []
    generated := []
    refCounts := []
    consumed := []
    absorbed := []
    filter := none
    warnings := []
    extent := d.root.size }

end Run

/-- A step of a run. A failure keeps the state that was reached. -/
abbrev Build := ExceptT Fault (StateM Run)

namespace Build

def graph : Build Graph := return (← get).graph

def node (i : Nat) : Build Node := return (← get).graph.node i

def pathOf (i : Nat) : Build String := return (← get).graph.pathOf i

def warn (location : String) (kind : WarningKind) (message : String) : Build Unit :=
  modify (Run.warn location kind message)

/-- Append a node and answer with its handle. -/
def attach (parent : Nat) (s : Seed) : Build Nat := do
  let i := (← get).graph.size
  modify (Run.onGraph fun g => g.attach parent s)
  return i

def modifyNode (i : Nat) (f : Node → Node) : Build Unit :=
  modify (Run.onGraph fun g => g.modify i f)

end Build

namespace Document

/-- The component that a reference names, or the failure of the node that refers to it. -/
def component (d : Document) (pointer path : String) : Except Fault Json :=
  match d.lookup? pointer with
  | some j => .ok j
  | none => .error (.reference pointer path)

/-- Follow references from a fragment to the first that is none, or to one met before. -/
def followFrom (d : Document) (path : String) : Nat → List String → Json → Except Fault Json
  | 0, _, _ => .error .depth
  | fuel + 1, seen, j =>
    match j.ref? with
    | none => .ok j
    | some pointer =>
      if seen.contains pointer then .ok j
      else (d.component pointer path).bind (d.followFrom path fuel (pointer :: seen))

end Document

end RestGraph
