import RestGraph.Text.Split

/-!
# Component pointers

The sections of a description whose entries can be referred to, and the names of their entries.
-/

namespace RestGraph

def schemasSection : String := "#/components/schemas/"

/-- The beginnings of the references that are followed. -/
def componentSections : List String :=
  [schemasSection, "#/components/responses/", "#/components/parameters/",
    "#/components/requestBodies/"]

/-- The short form of `schemasSection` in path text. -/
def schemasAbbreviation : String := "#/c/s/"

/-- The part of a reference after its section; a reference into no section stays whole. -/
def componentName (pointer : String) : String :=
  (componentSections.findSome? fun s => Text.after? s pointer).getD pointer

def abbreviate (id : String) : String := Text.replace schemasSection schemasAbbreviation id

def expand (id : String) : String := Text.replace schemasAbbreviation schemasSection id

end RestGraph
