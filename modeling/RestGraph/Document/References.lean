import RestGraph.Json.Pointer

/-!
# Dangling references

A reference object holds a string under `$ref`. Within one description the string must be `#` and a
pointer that leads somewhere; anything else is an issue, addressed by the keys that lead to the
object that holds it.
-/

namespace RestGraph

inductive IssueKind where
  /-- The reference leads out of the document. -/
  | external
  /-- The reference leads nowhere in the document. -/
  | unresolved
deriving DecidableEq, Repr

structure Issue where
  path : List String
  kind : IssueKind
  target : String
deriving DecidableEq, Repr

namespace Issue

def kindName : IssueKind → String
  | .external => "ExternalReference"
  | .unresolved => "UnresolvedReference"

/-- The path as a pointer from the root. -/
def location (i : Issue) : String :=
  i.path.foldl (fun text key => text ++ "/" ++ Json.escapeToken key) "#"

def message (i : Issue) : String :=
  match i.kind with
  | .external => "'" ++ i.target ++ "' points outside the document; bundle it first"
  | .unresolved => "'" ++ i.target ++ "' does not resolve"

def display (i : Issue) : String :=
  "[" ++ kindName i.kind ++ "] " ++ i.location ++ ": " ++ i.message

end Issue

namespace Json

/-- What is wrong with a reference, seen from the root. -/
def referenceFault? (root : Json) (target : String) : Option IssueKind :=
  match Text.after? "#" target with
  | none => some .external
  | some fragment => if (root.pointer? fragment).isSome then none else some .unresolved

def ownIssue (root j : Json) (path : List String) : List Issue :=
  match j.ref? with
  | none => []
  | some target => match referenceFault? root target with
    | none => []
    | some kind => [⟨path, kind, target⟩]

mutual

/-- The issues at and below a value, each object before what it contains. -/
def issuesIn (root : Json) (path : List String) : Json → List Issue
  | .object members =>
    ownIssue root (.object members) path ++ issuesInMembers root path members
  | .list items => issuesInItems root path 0 items
  | _ => []
termination_by structural j => j

def issuesInItems (root : Json) (path : List String) : Nat → List Json → List Issue
  | _, [] => []
  | i, j :: rest => issuesIn root (path ++ [toString i]) j ++ issuesInItems root path (i + 1) rest
termination_by structural _ items => items

def issuesInMembers (root : Json) (path : List String) : List (String × Json) → List Issue
  | [] => []
  | (key, j) :: rest => issuesIn root (path ++ [key]) j ++ issuesInMembers root path rest
termination_by structural members => members

end

/-- All dangling references of a document, in document order. -/
def referenceIssues (root : Json) : List Issue := issuesIn root [] root

end Json

end RestGraph
