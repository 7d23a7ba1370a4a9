import RestGraph.Document.Method
import RestGraph.Naming.Step

/-!
# GraphQL names

Names of types, fields and operations, the identifiers they are taken from, and the choice of a name
that is still free.
-/

namespace RestGraph.Naming

def typeSteps : List Step :=
  [.stripSection, .openBrackets, .dropInvalid, .splitWords, .pascal, .guardDigit]

def fieldSteps : List Step := [.openBrackets, .dropInvalid, .splitWords, .camel, .guardDigit]

def orElse (fallback : String) (cs : List Char) : String :=
  if cs.isEmpty then fallback else String.ofList cs

def typeName (raw : String) : String := orElse "Anonymous" (run typeSteps raw.toList)

def fieldName (raw : String) : String := orElse "value" (run fieldSteps raw.toList)

/-- The words of one path segment; a parameter in braces is read as "by" the parameter. -/
def segmentWords (segment : List Char) : List Char :=
  match segment with
  | '\x7b' :: rest =>
    if rest.getLast? = some '\x7d' then "by ".toList ++ rest.dropLast else segment
  | _ => segment

/-- The name of a root field: the declared id unless it is blank, else the method and the path. -/
def operationName (method : Method) (path : String) (id : Option String) : String :=
  match id.filter fun s => !Text.isBlankText s with
  | some s => fieldName s
  | none =>
    let words := (wordsBy (· == '/') path.toList).flatMap fun w => ' ' :: segmentWords w
    fieldName (method.key ++ String.ofList words)

def isLetter (c : Char) : Bool := c.isAlpha || c == '_'

def isIdentifierChars : List Char → Bool
  | [] => false
  | c :: cs => isLetter c && cs.all fun d => isLetter d || d.isDigit

/-- A letter or underscore, then letters, digits and underscores. -/
def isIdentifier (s : String) : Bool := isIdentifierChars s.toList

/-- Whether a value can stand in an enum declaration. -/
def isEnumValue (s : String) : Bool :=
  isIdentifier s && s != "true" && s != "false" && s != "null"

/-- A field name and, where it had to be replaced, the reason. -/
structure Guarded where
  name : String
  comment : Option String
deriving DecidableEq, Repr

def reservedName : String := "reservedField"

/-- Names that begin with two underscores belong to GraphQL itself and are replaced. -/
def guardReserved (raw : String) : Guarded :=
  if Text.startsWith "__" raw then ⟨reservedName, some ("\"" ++ raw ++ "\" is a reserved name")⟩
  else ⟨fieldName raw, none⟩

/-- The first of `base ++ n`, `base ++ (n + 1)`, … that is not among `count` taken names. -/
def firstFree (taken : List String) (base : String) : Nat → Nat → String
  | 0, n => base ++ toString n
  | count + 1, n =>
    if taken.contains (base ++ toString n) then firstFree taken base count (n + 1)
    else base ++ toString n

/-- The name itself or, when it is taken, the name with the least free number from two upwards. -/
def unique (taken : List String) (name : String) : String :=
  if taken.contains name then firstFree taken name taken.length 2 else name

/-- Names made unique one after the other. -/
def uniques (taken : List String) : List String → List String
  | [] => []
  | name :: names =>
    let fresh := unique taken name
    fresh :: uniques (fresh :: taken) names

end RestGraph.Naming
