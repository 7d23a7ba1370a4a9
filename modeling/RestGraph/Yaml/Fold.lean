import RestGraph.Yaml.Glyph

/-!
# Folding

Between two words of a scalar that goes over several lines stands a gap. Within a line it is kept;
a single break becomes a space, and of several the first is dropped.
-/

namespace RestGraph.Yaml

inductive Gap where
  /-- Blanks within a line, the last one first. -/
  | blanks (run : List Char)
  /-- The first break, if it counts, and the breaks after it, the last one first. -/
  | breaks (first : Option Char) (more : List Char)
deriving DecidableEq, Repr

namespace Gap

def none : Gap := .blanks []

def isNone : Gap → Bool
  | .blanks [] => true
  | _ => false

def isBroken : Gap → Bool
  | .breaks .. => true
  | .blanks _ => false

/-- A gap with one more blank or break; blanks beside breaks are dropped. -/
def extend (c : Char) : Gap → Gap
  | .blanks run => if isBreak c then .breaks (some c) [] else .blanks (c :: run)
  | .breaks first more => if isBreak c then .breaks first (c :: more) else .breaks first more

/-- What a gap becomes. -/
def fold : Gap → List Char
  | .blanks run => run.reverse
  | .breaks (some '\n') [] => [' ']
  | .breaks (some '\n') more => more.reverse
  | .breaks first more => first.toList ++ more.reverse

end Gap

end RestGraph.Yaml
