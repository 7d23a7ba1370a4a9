import RestGraph.Yaml.Node
import RestGraph.Yaml.Scalar

/-!
# Reading YAML

The JSON value of a text with one document. Aliases stand for their targets; how deep collections
lie inside each other and how often aliases are followed is limited.
-/

namespace RestGraph.Yaml

def maxDepth : Nat := 128

/-- Aliases may be followed so many times the number of events of a text. -/
def aliasFactor : Nat := 100

/-- The state is how many aliases may still be followed. -/
abbrev Reading := StateT Nat Option

namespace Reading

variable (slots : List (Nat × Node))

/-- What an alias stands for, and any other node itself. -/
def target (n : Node) : Reading Node := do
  match n with
  | .alias slot =>
    match ← get, slots.lookup slot with
    | left + 1, some n =>
      set left
      return n
    | _, _ => failure
  | n => return n

/-- A key is the text of a scalar, whatever value that has. -/
def key (n : Node) : Reading String := do
  match ← target slots n with
  | .scalar text .. => return text
  | _ => failure

def isRefused (tag : Option TagText) : Bool := tag.any Scalar.isLocalTag

/-- Of two entries with one key the last counts, at the place of the first. -/
def members (value : Node → Reading Json) :
    List (String × Json) → List (Node × Node) → Reading (List (String × Json))
  | before, [] => return before
  | before, (k, v) :: rest => do
    let k ← key slots k
    let j ← value v
    members value (Json.insert k j before) rest

/-- The value of a node; collections may lie so deep inside each other. -/
def value : Nat → Node → Reading Json
  | depth, n => do
    match ← target slots n, depth with
    | .scalar text plain tag _, _ => liftM (Scalar.value? text plain tag)
    | .sequence tag _ items, depth + 1 =>
      if isRefused tag then failure else return .list (← items.mapM (value depth))
    | .mapping tag _ entries, depth + 1 =>
      if isRefused tag then failure else return .object (← members slots (value depth) [] entries)
    | _, _ => failure

end Reading

/-- The nodes of the slots; the last node with a slot has it. -/
def slotsOf (n : Node) : List (Nat × Node) := n.anchored.reverse

def read? (text : String) : Option Json := do
  if text.toList.all isPrintable then
    match ← Node.ofTokens? (← Layout.scan (Glyph.ofText text)) with
    | none => return .null
    | some root =>
      let (j, _) ← (Reading.value (slotsOf root) maxDepth root).run (aliasFactor * root.events)
      return j
  else none

end RestGraph.Yaml
