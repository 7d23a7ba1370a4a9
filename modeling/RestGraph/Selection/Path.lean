import RestGraph.Graph.Basic

/-!
# Selection paths

A path text names nodes from a root downwards, by short ids, and may end in a wildcard.
-/

namespace RestGraph

inductive Wildcard where
  /-- The leaves below, without crossing a property. -/
  | direct
  /-- All leaves below. -/
  | deep
deriving DecidableEq, Repr

def Wildcard.text : Wildcard → String
  | direct => "*"
  | deep => "**"

def Wildcard.ofText? : String → Option Wildcard
  | "*" => some direct
  | "**" => some deep
  | _ => none

structure SelectionPath where
  segments : List String
  wildcard : Option Wildcard
deriving DecidableEq, Repr

namespace SelectionPath

def segmentsOf (text : String) : List String :=
  ((Text.split pathSeparator (Text.trim text)).map fun s => abbreviate (Text.trim s)).filter
    fun s => !s.isEmpty

/-- Blanks around segments and empty segments do not count; a wildcard counts at the end only. -/
def ofText (text : String) : SelectionPath :=
  let segments := segmentsOf text
  match segments.getLast?.bind Wildcard.ofText? with
  | some w => ⟨segments.dropLast, some w⟩
  | none => ⟨segments, none⟩

/-- The path without its wildcard. -/
def start (p : SelectionPath) : String := joinPath p.segments

def toText (p : SelectionPath) : String :=
  match p.wildcard with
  | some w => p.start ++ String.singleton pathSeparator ++ w.text
  | none => p.start

def isEmpty (p : SelectionPath) : Bool := p.segments.isEmpty

end SelectionPath

end RestGraph
