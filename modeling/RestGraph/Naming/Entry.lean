import RestGraph.Naming.Basic

/-!
# Mapping entries

One line of a mapping pairs a GraphQL name with a JSON key. Equal names stand once; a key that is
no identifier is quoted.
-/

namespace RestGraph.Naming

def quotedKey (key : String) : String := "\"" ++ Text.replace "\"" "\\\"" key ++ "\""

def keyText (key : String) : String := if isIdentifier key then key else quotedKey key

/-- The entry that fills a field from a JSON key. -/
def selectionEntry (name key : String) : String :=
  if name = key then key else name ++ ": " ++ keyText key

/-- The entry that fills a JSON key from a field. -/
def bodyEntry (key name : String) : String :=
  if name = key then key else keyText key ++ ": " ++ name

end RestGraph.Naming
