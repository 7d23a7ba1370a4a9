import RestGraph.CommandLine.Arguments
import RestGraph.Document.Load
import RestGraph.Graph.Start
import RestGraph.Pattern.Reader
import RestGraph.Picker
import RestGraph.Schema.Print

/-!
# What a command does

From arguments, files and input to what is printed or written. Files are read through a function,
so that a whole run is a value.
-/

namespace RestGraph.CommandLine

/-- What a run ends with. -/
structure Product where
  /-- The text for the standard output. -/
  stdout : String
  /-- A file to be written, and its text. -/
  file : Option (String × String)

inductive Failure where
  /-- The description in a file cannot be used. -/
  | load (file : String) (fault : DocumentFault)
  | filter
  | noOperations
  | run (fault : Fault)
  | write (file : String)
deriving Repr

namespace Failure

/-- The text of the failure itself; a fault of the run has its own. -/
def message : Failure → String
  | load file _ => "failed to load " ++ file
  | filter => "invalid --filter expression"
  | noOperations => "no operations selected"
  | run fault => fault.message
  | write file => "failed to write " ++ file

/-- What lies behind the failure. -/
def cause? : Failure → Option Fault
  | load _ fault => some (.document fault)
  | run fault => some fault
  | _ => none

def exitCode (f : Failure) : Nat :=
  match f.cause? with
  | some fault => fault.exitCode
  | none => 1

end Failure

def load (a : Arguments) (read : String → Option String) : Except Failure Document :=
  let loaded : Except DocumentFault Document :=
    match read a.source with
    | none => .error .unreadable
    | some text => Document.ofText a.source text a.skipValidation
  loaded.mapError (.load a.source)

def filterOf (a : Arguments) : Except Failure (Option Pattern) :=
  match a.filter with
  | none => .ok none
  | some text => match Pattern.ofText? text with
    | some p => .ok (some p)
    | none => .error .filter

def isConsidered (filter : Option Pattern) (n : Node) : Bool :=
  match n.kind, filter with
  | .operation _ path _, some p => p.occursIn path
  | _, _ => true

def consideredPaths (g : Graph) (filter : Option Pattern) : List String :=
  (g.roots.filter fun i => isConsidered filter (g.node i)).map fun i => abbreviate (g.idAt i)

/-- A list of strings as JSON. -/
def selectionsOf? (text : String) : Option (List String) :=
  ((Json.read? text).bind Json.list?).bind fun items => items.mapM Json.text?

def readSelections (read : String → Option String) (file : String) :
    Except Failure (List String) :=
  match (read file).bind selectionsOf? with
  | some selections => .ok selections
  | none => .error (.run .selections)

/-- The paths of the operations that the input chooses. -/
def pick (paths : List String) (pageSize : Nat) (input : String) : List String :=
  (Picker.choose paths pageSize input).chosen.filterMap (paths[·]?)

def selectionPaths (a : Arguments) (s : Settings) (read : String → Option String)
    (input : String) (considered : List String) : Except Failure (List String) :=
  match a.selections with
  | some file => readSelections read file
  | none =>
    let chosen := if a.skipSelection then considered else pick considered s.pageSize input
    .ok (chosen.map (· ++ ">**"))

/-- Strings as a JSON list with a line for each. -/
def listText (texts : List String) : String :=
  if texts.isEmpty then "[]"
  else "[\n" ++ Text.join ",\n" (texts.map fun s => "  " ++ Json.quote s) ++ "\n]"

/-- Print the selected paths, or the schema for them. -/
def produce (a : Arguments) (s : Settings) (d : Document) (selections : List String) :
    Build Product := do
  let c ← Build.collect d selections
  if a.printSelections then return ⟨listText c.paths ++ "\n", none⟩
  else
    let schema ← Build.generate d c s
    match a.output with
    | some file => return ⟨"", some (file, schema)⟩
    | none => return ⟨schema, none⟩

/-- The picker that the input talks to, if the run comes to one. -/
def picker? (a : Arguments) (lookup read : String → Option String) : Option Picker :=
  if a.listPaths || a.skipSelection || a.selections.isSome then none
  else match load a read, filterOf a with
    | .ok d, .ok filter =>
      some (Picker.start (consideredPaths (Graph.ofDocument d) filter) (a.settings lookup).pageSize)
    | _, _ => none

def run (a : Arguments) (lookup read : String → Option String) (input : String) :
    Except Failure Product := do
  let s := a.settings lookup
  let d ← load a read
  let filter ← filterOf a
  let start := Run.ofDocument d
  let considered := consideredPaths start.graph filter
  if a.listPaths then
    let shown := start.graph.rootIds.filter considered.contains
    return ⟨String.join (shown.map (· ++ "\n")), none⟩
  else
    let selections ← selectionPaths a s read input considered
    if selections.isEmpty then throw .noOperations
    else ((produce a s d selections).run start).1.mapError .run

end RestGraph.CommandLine
