import RestGraph.Schema.Fields

/-!
# Mappings

A mapping pairs the selected fields with JSON keys, block by block. The response mapping fills
fields from JSON, the body mapping fills JSON from the fields of an argument; both are printed from
the same entries.
-/

namespace RestGraph

inductive Entry where
  /-- A field that is left out because it closes a cycle. -/
  | circular (key : String)
  | leaf (name key : String) (comment : Option String)
  | block (name key : String) (entries : List Entry)

/-- Which way a mapping goes. -/
inductive Direction where
  | response
  | body
deriving DecidableEq, Repr

def Direction.head : Direction → String → String → String
  | response, name, key => Naming.selectionEntry name key
  | body, name, key => Naming.bodyEntry key name

def circularComment : String := "# Circular reference"

def indentation (depth : Nat) : String := "".pushn ' ' (2 * depth)

mutual

def Entry.lines (dir : Direction) (depth : Nat) : Entry → List String
  | .circular key => [indentation depth ++ circularComment ++ ": " ++ key]
  | .leaf name key comment =>
    let head := indentation depth ++ dir.head name key
    match comment with
    | some text => [head ++ " # " ++ text]
    | none => [head]
  | .block name key entries =>
    [indentation depth ++ dir.head name key ++ " \x7b"] ++ Entry.linesOf dir (depth + 1) entries ++
      [indentation depth ++ "\x7d"]
termination_by structural e => e

def Entry.linesOf (dir : Direction) (depth : Nat) : List Entry → List String
  | [] => []
  | e :: rest => e.lines dir depth ++ Entry.linesOf dir depth rest
termination_by structural es => es

end

/-- The entries for a container. What a field leads to comes after the container, so the blocks
inside each other end. -/
def entriesOf (g : Graph) (selection : Option Collection) (container : Nat) : List Entry :=
  (visibleFields g container selection).map fun f =>
    match f.name with
    | none => .circular f.jsonName
    | some name =>
      let target := g.elementOf f.prop
      let kind := (g.node target).kind
      if kind.isCircular then .circular f.jsonName
      else if kind.isStructured then
        if _h : container < target ∧ target < g.size then
          .block name f.jsonName (entriesOf g selection target)
        else .leaf name f.jsonName f.comment
      else .leaf name f.jsonName f.comment
termination_by g.size - container

def responseLines (g : Graph) (c : Collection) (response : Nat) : List String :=
  let n := g.node response
  match n.kind, n.children with
  | .response _ true, _ => ["success: $(true)"]
  | _, [] => ["$"]
  | _, schema :: _ =>
    let target := g.elementOf schema
    let kind := (g.node target).kind
    if kind.isCircular then [circularComment]
    else if kind.isStructured then Entry.linesOf .response 0 (entriesOf g (some c) target)
    else ["$"]

/-- The mapping of a request body that is bound to an argument. -/
def bodyLines (g : Graph) (body : Nat) (arg : String) : List String :=
  match (g.node body).children with
  | [] => ["$args." ++ arg]
  | schema :: _ =>
    let target := g.elementOf schema
    if (g.node target).kind.isStructured then
      ["$args." ++ arg ++ " \x7b"] ++ Entry.linesOf .body 1 (entriesOf g none target) ++ ["\x7d"]
    else ["$args." ++ arg]

end RestGraph
