import RestGraph.Document.References
import RestGraph.Json.Writer

/-!
# Faults

Every way in which a run can fail, by cause, and the one text of each.
-/

namespace RestGraph

/-- Why a description cannot be used. -/
inductive DocumentFault where
  | unreadable
  | malformed
  | version (version : String)
  | invalid
  | references (issues : List Issue)
deriving Repr

inductive Fault where
  | document (fault : DocumentFault)
  /-- A schema of no known shape below the node with this path. -/
  | schema (schema : Json) (path : String)
  /-- A reference without target, made by the node with this path. -/
  | reference (pointer path : String)
  /-- A selection path with a segment that no child has. -/
  | path (path reached : String) (available : List String)
  | notAnOperation (path : String)
  /-- The selections file is no list of strings. -/
  | selections
  /-- The depth that was allowed to a traversal did not suffice. -/
  | depth
deriving Repr

def DocumentFault.message : DocumentFault → String
  | unreadable => "the document cannot be read"
  | malformed => "the document cannot be parsed"
  | version v =>
    "unsupported document version '" ++ v ++ "': only OpenAPI 3.x is supported"
  | invalid => "document is not a valid OpenAPI 3 description"
  | references issues =>
    "document validation failed with " ++ toString issues.length ++ " issue(s)"

def Fault.message : Fault → String
  | .document f => f.message
  | .schema s site => "unsupported schema kind at " ++ site ++ ": " ++ s.compact
  | .reference pointer site => "missing reference " ++ pointer ++ " (from " ++ site ++ ")"
  | .path wanted reached available =>
    "selection path not found: " ++ wanted ++ " (matched up to '" ++ reached ++ "', available: [" ++
      Text.join ", " available ++ "])"
  | .notAnOperation site => site ++ " is not an operation"
  | .selections => "the selections file is not a JSON array of strings"
  | .depth => "the description is nested too deeply"

def Fault.exitCode : Fault → Nat
  | .document .unreadable => 3
  | .selections => 3
  | .document _ => 2
  | _ => 1

end RestGraph
