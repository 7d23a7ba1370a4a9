import RestGraph.Graph.Visit

/-!
# Merging branches

The fields of a composition are those of its branches, the branches of its branches and so on. They
are walked level by level; the first branch that defines a name keeps it.
-/

namespace RestGraph.Build

variable (d : Document)

/-- What merging has gathered: the fields, and the branches they were taken from. -/
structure Merged where
  props : List (String × Nat)
  consumed : List Nat

/-- Whether only requested properties are to be kept: a filter is set and no argument is being
built. -/
def isFiltering : Build Bool := do
  let r ← get
  return r.filter.isSome && !r.inContextOf .body && !r.inContextOf .param

def isAllowed (r : Run) (filtering : Bool) (prop : Nat) : Bool :=
  !filtering || r.filter.any fun f => f.allows (r.graph.pathOf prop)

/-- Add the fields whose names are not there yet. -/
def addProps (r : Run) (filtering : Bool) (own : List (String × Nat)) (m : Merged) : Merged :=
  { m with props := own.foldl (fun props (name, prop) =>
      if isAllowed r filtering prop && (props.lookup name).isNone then props ++ [(name, prop)]
      else props) m.props }

/-- The children of a node that are no properties. -/
def branchesBelow (g : Graph) (i : Nat) : List Nat :=
  (g.node i).children.filter fun c => !(g.node c).isProperty

/-- Take in one branch, unless it was taken in before, and name the branches below it. -/
def mergeBranch (filtering : Bool) (m : Merged) (i : Nat) : Build (Merged × List Nat) := do
  if m.consumed.contains i then return (m, [])
  visit d i
  let n ← node i
  match n.kind with
  | .reference pointer => modify (Run.releaseRef pointer)
  | _ => pure ()
  let r ← get
  let m := addProps r filtering n.props { m with consumed := m.consumed ++ [i] }
  match n.kind with
  | .reference _ | .composed | .union => return (m, branchesBelow r.graph i)
  | _ => return (m, [])

def mergeLevel (filtering : Bool) : Merged → List Nat → Build (Merged × List Nat)
  | m, [] => return (m, [])
  | m, i :: rest => do
    let (m, below) ← mergeBranch d filtering m i
    let (m, more) ← mergeLevel filtering m rest
    return (m, below ++ more)

def mergeLevels (filtering : Bool) : Nat → Merged → List Nat → Build Merged
  | _, m, [] => return m
  | 0, _, _ :: _ => throw .depth
  | depth + 1, m, level => do
    let (m, next) ← mergeLevel d filtering m level
    mergeLevels filtering depth m next

/-- Merge the branches of a composition into its own fields, and answer with the branches. A second
call answers what the first one found. -/
def consolidate (i : Nat) : Build (List Nat) := do
  if (← node i).consolidated then return ((← get).consumedBy? i).getD []
  visit d i
  modifyNode i fun n => { n with consolidated := true }
  let filtering ← isFiltering
  let r ← get
  let m ← mergeLevels d filtering r.reach ⟨[], []⟩ (branchesBelow r.graph i)
  modifyNode i fun n => { n with props := Text.sortByName Prod.fst m.props }
  modify (Run.absorb i m.consumed)
  return m.consumed

end RestGraph.Build
