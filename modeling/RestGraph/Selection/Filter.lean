import RestGraph.Graph.Basic

/-!
# Path filters

A set of requested paths lets every node through that lies on the way to one of them.
-/

namespace RestGraph

structure PathFilter where
  /-- The requested paths and all their beginnings. -/
  allowed : List String

namespace PathFilter

/-- The beginnings of a text that stop before a separator, and the text itself. -/
def beginnings : List Char → List (List Char)
  | [] => [[]]
  | c :: cs =>
    let rest := (beginnings cs).map (c :: ·)
    if c = pathSeparator then [] :: rest else rest

def ofPaths (paths : List String) : PathFilter :=
  ⟨(paths.flatMap fun p => (beginnings p.toList).map String.ofList).eraseDups⟩

def allows (f : PathFilter) (path : String) : Bool := f.allowed.contains path

end PathFilter

end RestGraph
