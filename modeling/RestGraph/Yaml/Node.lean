import RestGraph.Yaml.Layout

/-!
# Nodes of a YAML text

A text is one tree of nodes. An anchored node has a slot: the number of different anchor names
before it. A name that comes again gets a new slot, which a later name may get too; then the later
node has it, also for aliases read before.
-/

namespace RestGraph.Yaml

inductive Node where
  | scalar (text : String) (plain : Bool) (tag : Option TagText) (slot : Option Nat)
  | sequence (tag : Option TagText) (slot : Option Nat) (items : List Node)
  | mapping (tag : Option TagText) (slot : Option Nat) (entries : List (Node × Node))
  | alias (slot : Nat)
deriving Repr

namespace Node

/-- What is not written. -/
def empty : Node := .scalar "" true none none

def slot? : Node → Option Nat
  | .scalar _ _ _ s | .sequence _ s _ | .mapping _ s _ => s
  | .alias _ => none

mutual

/-- The number of beginnings, ends and leaves. -/
def events : Node → Nat
  | .sequence _ _ items => 2 + eventsOfItems items
  | .mapping _ _ entries => 2 + eventsOfEntries entries
  | _ => 1
termination_by structural n => n

def eventsOfItems : List Node → Nat
  | [] => 0
  | n :: rest => n.events + eventsOfItems rest
termination_by structural ns => ns

def eventsOfEntries : List (Node × Node) → Nat
  | [] => 0
  | (k, v) :: rest => k.events + v.events + eventsOfEntries rest
termination_by structural es => es

end

mutual

/-- The nodes with slots, in the order of the text. -/
def anchored : Node → List (Nat × Node)
  | .scalar text plain tag slot => slot.toList.map fun s => (s, .scalar text plain tag slot)
  | .sequence tag slot items =>
    slot.toList.map (fun s => (s, .sequence tag slot items)) ++ anchoredItems items
  | .mapping tag slot entries =>
    slot.toList.map (fun s => (s, .mapping tag slot entries)) ++ anchoredEntries entries
  | .alias _ => []
termination_by structural n => n

def anchoredItems : List Node → List (Nat × Node)
  | [] => []
  | n :: rest => n.anchored ++ anchoredItems rest
termination_by structural ns => ns

def anchoredEntries : List (Node × Node) → List (Nat × Node)
  | [] => []
  | (k, v) :: rest => k.anchored ++ v.anchored ++ anchoredEntries rest
termination_by structural es => es

end

end Node

/-! ## From tokens to nodes -/

structure Composing where
  tokens : List Token
  /-- What tag handles stand for. -/
  handles : List (String × TagText)
  /-- The slots of the anchor names. -/
  names : List (String × Nat)

abbrev Compose := StateT Composing Option

namespace Compose

def peek : Compose (Option Token) := return (← get).tokens.head?

def skip : Compose Unit := modify fun s => { s with tokens := s.tokens.tail }

def nextIs (ts : List Token) : Compose Bool := return (← peek).any ts.contains

def expect (t : Token) : Compose Unit := do
  if ← nextIs [t] then skip else failure

def takeAnchor : Compose (Option String) := do
  match ← peek with
  | some (.anchor name) => skip; return some name
  | _ => return none

def expand (handle : String) (suffix : TagText) : Compose TagText := do
  if handle = "" then return suffix
  else match (← get).handles.lookup handle with
    | some beginning => return beginning.append suffix
    | none => failure

def takeTag : Compose (Option TagText) := do
  match ← peek with
  | some (.tag handle suffix) => skip; return some (← expand handle suffix)
  | _ => return none

/-- The anchor and the tag before a node, in either order. -/
def properties : Compose (Option String × Option TagText) := do
  match ← takeAnchor with
  | some name => return (some name, ← takeTag)
  | none =>
    match ← takeTag with
    | some tag => return (← takeAnchor, some tag)
    | none => return (none, none)

def slotFor (anchor : Option String) : Compose (Option Nat) := do
  match anchor with
  | none => return none
  | some name =>
    let names := (← get).names
    modify fun s => { s with names := (name, names.length) :: names.filter (·.1 != name) }
    return some names.length

def aliasOf (name : String) : Compose Node := do
  match (← get).names.lookup name with
  | some slot => return .alias slot
  | none => failure

/-- A node of which only the anchor or the tag is written. -/
def bare (anchor : Option String) (tag : Option TagText) (slot : Option Nat) : Compose Node :=
  if anchor.isSome || tag.isSome then return .scalar "" true tag slot else failure

mutual

/-- A node. Block collections begin only in blocks, and a sequence without an indentation of its
own only as part of a mapping. -/
def node : Nat → Bool → Bool → Compose Node
  | 0, _, _ => failure
  | fuel + 1, inBlock, inMapping => do
    match ← peek with
    | some (.alias name) => skip; aliasOf name
    | _ =>
      let (anchor, tag) ← properties
      let slot ← slotFor anchor
      match ← peek with
      | some .entry =>
        if inMapping then return .sequence tag slot (← indentlessItems fuel)
        else bare anchor tag slot
      | some (.scalar text plain) => skip; return .scalar text plain tag slot
      | some .flowSequence => skip; return .sequence tag slot (← flowItems fuel true)
      | some .flowMapping => skip; return .mapping tag slot (← flowEntries fuel true)
      | some .blockSequence =>
        if inBlock then do skip; return .sequence tag slot (← blockItems fuel)
        else bare anchor tag slot
      | some .blockMapping =>
        if inBlock then do skip; return .mapping tag slot (← blockEntries fuel)
        else bare anchor tag slot
      | _ => bare anchor tag slot
termination_by structural fuel => fuel

/-- A node that is left out where one of some tokens comes next. -/
def nodeUnless : Nat → List Token → Bool → Bool → Compose Node
  | 0, _, _, _ => failure
  | fuel + 1, ts, inBlock, inMapping => do
    if ← nextIs ts then return .empty else node fuel inBlock inMapping
termination_by structural fuel => fuel

def blockItems : Nat → Compose (List Node)
  | 0 => failure
  | fuel + 1 => do
    match ← peek with
    | some .entry =>
      skip
      let item ← nodeUnless fuel [.entry, .blockEnd] true false
      return item :: (← blockItems fuel)
    | some .blockEnd => skip; return []
    | _ => failure
termination_by structural fuel => fuel

def indentlessItems : Nat → Compose (List Node)
  | 0 => failure
  | fuel + 1 => do
    if ← nextIs [.entry] then
      skip
      let item ← nodeUnless fuel [.entry, .key, .value, .blockEnd] true false
      return item :: (← indentlessItems fuel)
    else return []
termination_by structural fuel => fuel

def blockEntries : Nat → Compose (List (Node × Node))
  | 0 => failure
  | fuel + 1 => do
    match ← peek with
    | some .key =>
      skip
      let key ← nodeUnless fuel [.key, .value, .blockEnd] true true
      let value ←
        if ← nextIs [.value] then do
          skip
          nodeUnless fuel [.key, .value, .blockEnd] true true
        else pure .empty
      return (key, value) :: (← blockEntries fuel)
    | some .blockEnd => skip; return []
    | _ => failure
termination_by structural fuel => fuel

/-- The items of a flow sequence. An item with a question mark or a colon is a mapping. -/
def flowItems : Nat → Bool → Compose (List Node)
  | 0, _ => failure
  | fuel + 1, isFirst => do
    if ← nextIs [.flowSequenceEnd] then skip; return []
    else
      if !isFirst then expect .flowEntry
      match ← peek with
      | some .flowSequenceEnd => skip; return []
      | some .key =>
        skip
        let entry ← flowPair fuel
        return .mapping none none [entry] :: (← flowItems fuel false)
      | _ =>
        let item ← node fuel false false
        return item :: (← flowItems fuel false)
termination_by structural fuel => fuel

/-- The one entry of a mapping without braces. Where the key is left out, so is the token that
follows. -/
def flowPair : Nat → Compose (Node × Node)
  | 0 => failure
  | fuel + 1 => do
    let key ←
      if ← nextIs [.value, .flowEntry, .flowSequenceEnd] then do
        skip
        pure .empty
      else node fuel false false
    let value ← flowValue fuel .flowSequenceEnd
    return (key, value)
termination_by structural fuel => fuel

def flowValue : Nat → Token → Compose Node
  | 0, _ => failure
  | fuel + 1, closing => do
    if ← nextIs [.value] then
      skip
      nodeUnless fuel [.flowEntry, closing] false false
    else return .empty
termination_by structural fuel => fuel

def flowEntries : Nat → Bool → Compose (List (Node × Node))
  | 0, _ => failure
  | fuel + 1, isFirst => do
    if ← nextIs [.flowMappingEnd] then skip; return []
    else
      if !isFirst then expect .flowEntry
      match ← peek with
      | some .flowMappingEnd => skip; return []
      | some .key =>
        skip
        let key ← nodeUnless fuel [.value, .flowEntry, .flowMappingEnd] false false
        let value ← flowValue fuel .flowMappingEnd
        return (key, value) :: (← flowEntries fuel false)
      | _ =>
        let key ← node fuel false false
        return (key, .empty) :: (← flowEntries fuel false)
termination_by structural fuel => fuel

end

/-! ## Documents -/

def addHandle (handle : String) (beginning : TagText) : Compose Unit := do
  if ((← get).handles.lookup handle).isSome then failure
  else modify fun s => { s with handles := (handle, beginning) :: s.handles }

/-- The directives before a document; `isVersioned` says whether the version was given. -/
def directives : Nat → Bool → Compose Unit
  | 0, _ => failure
  | fuel + 1, isVersioned => do
    match ← peek with
    | some (.version major minor) =>
      if isVersioned || major != 1 || (minor != 1 && minor != 2) then failure
      else do
        skip
        directives fuel true
    | some (.handle name beginning) =>
      skip
      addHandle name beginning
      directives fuel isVersioned
    | _ => pure ()

def isDirective : Token → Bool
  | .version .. | .handle .. => true
  | _ => false

/-- The handles that need no directive. -/
def addDefaults : Compose Unit :=
  modify fun s => { s with handles := s.handles ++
    [("!", .ofString "!"), ("!!", .ofString "tag:yaml.org,2002:")] }

/-- The one document of a text; a text without any holds nothing. -/
def document (fuel : Nat) : Compose (Option Node) := do
  match ← peek with
  | none => return none
  | some t =>
    if isDirective t || t == .documentStart then
      directives fuel false
      expect .documentStart
      addDefaults
      let isBare := (← peek).isNone || (← nextIs [.documentStart, .documentEnd]) ||
        (← peek).any isDirective
      let root ← if isBare then pure .empty else node fuel true false
      return some root
    else
      addDefaults
      return some (← node fuel true false)

/-- The text ends, perhaps after marks for the end of the document. -/
def finish : Compose Unit := do
  if (← get).tokens.all (· == .documentEnd) then pure () else failure

end Compose

namespace Node

/-- The document that tokens make; `none` is a text without one. -/
def ofTokens? (ts : List Token) : Option (Option Node) :=
  let whole : Compose (Option Node) := do
    let root ← Compose.document (3 * ts.length + 3)
    Compose.finish
    return root
  (whole.run ⟨ts, [], []⟩).map Prod.fst

end Node

end RestGraph.Yaml
