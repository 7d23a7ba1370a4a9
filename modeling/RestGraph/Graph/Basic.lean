import RestGraph.Graph.Node
import RestGraph.Naming.Pointer

/-!
# The graph

Nodes live in an array and are addressed by their positions. Operations are the roots. A child comes
after its parent, so the way up and the way down both end.
-/

namespace RestGraph

/-- What stands between the ids of a path text. -/
def pathSeparator : Char := '>'

def joinPath (ids : List String) : String := Text.join (String.singleton pathSeparator) ids

structure Graph where
  nodes : Array Node
  roots : List Nat

namespace Graph

def empty : Graph := ⟨#[], []⟩

def size (g : Graph) : Nat := g.nodes.size

def node (g : Graph) (i : Nat) : Node := g.nodes.getD i Node.nowhere

def modify (g : Graph) (i : Nat) (f : Node → Node) : Graph :=
  { g with nodes := g.nodes.modify i f }

def idAt (g : Graph) (i : Nat) : String := (g.node i).id

/-- A node as it enters the graph; a property is passed over in the lineage. -/
def sprout (g : Graph) (parent : Option Nat) (s : Seed) : Node :=
  let inherited := match parent with
    | some p => (g.node p).lineage
    | none => []
  { kind := s.kind
    name := s.name
    parent
    children := []
    props := []
    visited := false
    consolidated := false
    schema := s.schema
    discriminant := s.discriminant
    scope := s.scope
    lineage := if s.kind.isProperty then inherited else (s.id, g.size) :: inherited }

def addRoot (g : Graph) (s : Seed) : Graph :=
  { nodes := g.nodes.push (g.sprout none s), roots := g.roots ++ [g.size] }

/-- Append a node to the graph and to the children of its parent. -/
def attach (g : Graph) (parent : Nat) (s : Seed) : Graph :=
  let node := g.sprout (some parent) s
  { g with nodes := (g.nodes.push node).modify parent fun p =>
      { p with children := p.children ++ [g.size] } }

/-- The root with an id, in its short or its full form. -/
def findRoot? (g : Graph) (id : String) : Option Nat :=
  g.roots.find? fun r => g.idAt r == expand id

def findChild? (g : Graph) (i : Nat) (id : String) : Option Nat :=
  (g.node i).children.find? fun c => g.idAt c == expand id

/-- The node of the lineage of `i` that has an id. -/
def lineageHit? (g : Graph) (i : Nat) (id : String) : Option Nat :=
  (g.node i).lineage.lookup id

/-- The nodes above a node, nearest first. -/
def ancestors (g : Graph) (i : Nat) : List Nat :=
  match (g.node i).parent with
  | none => []
  | some p => if p < i then p :: g.ancestors p else []
termination_by i

/-- The way from the root down to a node, both included. -/
def chain (g : Graph) (i : Nat) : List Nat := (i :: g.ancestors i).reverse

def rootOf (g : Graph) (i : Nat) : Nat := (g.ancestors i).getLast?.getD i

/-- The text that addresses a node. -/
def pathOf (g : Graph) (i : Nat) : String :=
  joinPath ((g.chain i).map fun a => abbreviate (g.idAt a))

/-- The first child, if it comes after its parent. -/
def firstBelow? (g : Graph) (i : Nat) : Option { c : Nat // i < c ∧ c < g.size } :=
  match (g.node i).children with
  | c :: _ => if h : i < c ∧ c < g.size then some ⟨c, h⟩ else none
  | [] => none

/-- The node below references and wrapping properties, as far as the graph is built. -/
def targetOf (g : Graph) (i : Nat) : Nat :=
  if (g.node i).kind.isWrapper then
    match g.firstBelow? i with
    | some ⟨c, _⟩ => g.targetOf c
    | none => i
  else i
termination_by g.size - i
decreasing_by omega

/-- The nodes found by entering wrappers and the first elements of arrays end at this one. -/
def elementOf (g : Graph) (i : Nat) : Nat :=
  let kind := (g.node i).kind
  if kind.isWrapper || kind.isArray then
    match g.firstBelow? i with
    | some ⟨c, _⟩ => g.elementOf c
    | none => i
  else i
termination_by g.size - i
decreasing_by omega

/-- Whether a node is part of the arguments of an operation. -/
def inArguments (g : Graph) (i : Nat) : Bool :=
  (g.ancestors i).any fun a =>
    let tag := (g.node a).kind.tag
    tag == .param || tag == .body

def rootIds (g : Graph) : List String := g.roots.map fun r => abbreviate (g.idAt r)

end Graph

end RestGraph
