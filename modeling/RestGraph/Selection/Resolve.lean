import RestGraph.Graph.Visit
import RestGraph.Selection.Path

/-!
# Resolving paths

A path leads to one node, which is built on the way; a wildcard leads on to the leaves below it.
-/

namespace RestGraph.Build

variable (d : Document)

def notFound (p : SelectionPath) (reached available : List String) : Fault :=
  .path p.toText (joinPath reached) available

def childIds (g : Graph) (i : Nat) : List String :=
  (g.node i).children.map fun c => abbreviate (g.idAt c)

/-- Follow the rest of a path from a node; `reached` are the segments behind. -/
def descend (p : SelectionPath) : List String → Nat → List String → Build Nat
  | _, i, [] => return i
  | reached, i, segment :: rest => do
    visit d i
    let g ← graph
    match g.findChild? i segment with
    | some c => descend p (reached ++ [segment]) c rest
    | none => throw (notFound p reached (childIds g i))

/-- The node that the segments of a path lead to. -/
def resolve (p : SelectionPath) : Build Nat := do
  let g ← graph
  match p.segments with
  | [] => throw (notFound p [] g.rootIds)
  | first :: rest =>
    match g.findRoot? first with
    | some root => descend d p [first] root rest
    | none => throw (notFound p [] g.rootIds)

/-- Whether a wildcard goes on into a child. Arguments are never selected from. -/
def entersChild (w : Wildcard) (child : Node) : Bool :=
  match child.kind with
  | .param .. | .body _ => false
  | .property .. => w == .deep || child.isLeaf
  | _ => true

def leavesWithin (w : Wildcard) : Nat → Nat → Build (List Nat)
  | 0, _ => throw .depth
  | depth + 1, i => do
    if (← node i).isLeaf then return [i]
    let children ← childrenOf d i
    collectFrom (leavesWithin w depth) children
where
  /-- The leaves below the children that are entered, one child after the other. -/
  collectFrom (below : Nat → Build (List Nat)) : List Nat → Build (List Nat)
    | [] => return []
    | c :: rest => do
      let found ← if entersChild w (← node c) then below c else pure []
      return found ++ (← collectFrom below rest)

/-- The leaves that a wildcard selects below a node. -/
def leavesBelow (i : Nat) (w : Wildcard) : Build (List Nat) := do
  leavesWithin d w (← get).reach i

/-- The leaves that a path selects; a path to a node that is no leaf selects all below it. -/
def resolveLeaves (p : SelectionPath) : Build (List Nat) := do
  let target ← resolve d p
  match p.wildcard with
  | some w => leavesBelow d target w
  | none => leavesBelow d target .deep

end RestGraph.Build
