import RestGraph.Selection.Resolve

/-!
# Collections

What a list of selection paths amounts to: the leaves, everything on the way to them, and the nodes
that need a declaration.
-/

namespace RestGraph

structure Collection where
  /-- The paths of the leaves, in the order of selection. -/
  paths : List String
  leaves : List Nat
  /-- All nodes on the way to a leaf. -/
  selected : List Nat
  /-- The operations, in the order of the roots. -/
  operations : List Nat
  containers : List Nat
  enums : List Nat

namespace Collection

def empty : Collection := ⟨[], [], [], [], [], []⟩

/-- Append what is not there yet. -/
def addNew {α : Type} [BEq α] (xs : List α) (x : α) : List α :=
  if xs.contains x then xs else xs ++ [x]

def isSelected (c : Collection) (i : Nat) : Bool := c.selected.contains i

def addNode (g : Graph) (c : Collection) (i : Nat) : Collection :=
  let kind := (g.node i).kind
  { c with
    selected := addNew c.selected i
    containers := if kind.isContainer then addNew c.containers i else c.containers
    enums := if kind.tag == .enum then addNew c.enums i else c.enums }

/-- An enum property selects the enum that it wraps. -/
def addWrappedEnum (g : Graph) (leaf : Nat) (c : Collection) : Collection :=
  match (g.node leaf).kind with
  | .property .enum _ =>
    let target := g.targetOf leaf
    if (g.node target).kind.tag == .enum then { c with enums := addNew c.enums target } else c
  | _ => c

def addLeaf (g : Graph) (c : Collection) (leaf : Nat) : Collection :=
  let c := { c with
    paths := addNew c.paths (g.pathOf leaf)
    leaves := addNew c.leaves leaf
    operations := addNew c.operations (g.rootOf leaf) }
  addWrappedEnum g leaf ((g.chain leaf).foldl (addNode g) c)

/-- Put the operations into the order of the roots. -/
def inRootOrder (g : Graph) (c : Collection) : Collection :=
  { c with operations := g.roots.filter c.operations.contains }

end Collection

namespace Build

variable (d : Document)

def collectPaths : Collection → List String → Build Collection
  | c, [] => return c
  | c, text :: rest => do
    let p := SelectionPath.ofText text
    if p.isEmpty then collectPaths c rest
    else
      let leaves ← resolveLeaves d p
      let g ← graph
      collectPaths (leaves.foldl (Collection.addLeaf g) c) rest

/-- Resolve all paths, and from now on keep only what they select. -/
def collect (selections : List String) : Build Collection := do
  let c ← collectPaths d .empty selections
  let c := c.inRootOrder (← graph)
  modify (Run.setFilter (PathFilter.ofPaths c.paths))
  return c

end Build

end RestGraph
