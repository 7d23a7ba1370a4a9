/-!
# Cutting and joining text

Cuts at single characters, fixed beginnings, and the replacement of every occurrence of a pattern.
All functions have a form on lists of characters, which is the one to reason about.
-/

namespace RestGraph.Text

/-- The pieces between separators; one more than there are separators. -/
def splitWhere (p : Char → Bool) (s : String) : List String :=
  (s.toList.splitOnP p).map String.ofList

def split (sep : Char) (s : String) : List String := splitWhere (· == sep) s

def join (sep : String) (parts : List String) : String :=
  String.ofList (sep.toList.intercalate (parts.map String.toList))

/-- The text before the first separator and the text after it. -/
def cutChars? (sep : Char) : List Char → Option (List Char × List Char)
  | [] => none
  | c :: cs => if c == sep then some ([], cs) else (cutChars? sep cs).map fun (a, b) => (c :: a, b)

def cut? (sep : Char) (s : String) : Option (String × String) :=
  (cutChars? sep s.toList).map fun (a, b) => (String.ofList a, String.ofList b)

/-- What follows a given beginning. -/
def after? (start : String) (s : String) : Option String :=
  (start.toList.isPrefixOf? s.toList).map String.ofList

def startsWith (start : String) (s : String) : Bool := start.toList.isPrefixOf s.toList

/-- Write `new` for each occurrence of `old`, from the left and without overlap. The counter is the
number of characters still to be dropped from the occurrence just replaced. -/
def replaceFrom (old new : List Char) : Nat → List Char → List Char
  | _, [] => []
  | k + 1, _ :: cs => replaceFrom old new k cs
  | 0, c :: cs =>
    if old.isPrefixOf (c :: cs) then new ++ replaceFrom old new (old.length - 1) cs
    else c :: replaceFrom old new 0 cs

/-- Replacement of a pattern that is not empty. -/
def replaceChars (old new : List Char) (cs : List Char) : List Char := replaceFrom old new 0 cs

def replace (old new s : String) : String :=
  String.ofList (replaceChars old.toList new.toList s.toList)

def asciiLower (s : String) : String := String.ofList (s.toList.map Char.toLower)

end RestGraph.Text
