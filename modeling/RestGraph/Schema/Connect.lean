import RestGraph.Naming.Basic
import RestGraph.Schema.Decl
import RestGraph.Settings

/-!
# Connect directives

The directive that binds a root field to a request: the path with its arguments, the headers, and
the two mappings.
-/

namespace RestGraph

/-- Escape a value for a string literal. -/
def escapeLiteral (value : String) : String :=
  Text.replace "\"" "\\\"" (Text.replace "\\" "\\\\" value)

structure ConnectDirective where
  source : String
  method : Method
  path : String
  headers : List Header
  /-- The lines of the body mapping; there are none when no body is sent. -/
  body : List String
  selection : List String

namespace ConnectDirective

def headerLines (headers : List Header) : List String :=
  if headers.isEmpty then []
  else
    ["        headers: ["] ++
    headers.map (fun h =>
      "          \x7b name: \"" ++ h.name ++ "\", value: \"" ++ h.value ++ "\" \x7d") ++
    ["        ]"]

def bodyBlock (body : List String) : List String :=
  if body.isEmpty then []
  else ["        body: \"\"\""] ++ body.map ("        " ++ ·) ++ ["        \"\"\""]

def httpLines (c : ConnectDirective) : List String :=
  let request := c.method.verb ++ ": \"" ++ c.path ++ "\""
  if c.headers.isEmpty && c.body.isEmpty then ["      http: \x7b " ++ request ++ " \x7d"]
  else
    ["      http: \x7b", "        " ++ request] ++ headerLines c.headers ++ bodyBlock c.body ++
      ["      \x7d"]

def render (c : ConnectDirective) : String :=
  Text.join "\n" (["    @connect(", "      source: \"" ++ c.source ++ "\""] ++ c.httpLines ++
    ["      selection: \"\"\""] ++ c.selection.map ("      " ++ ·) ++ ["      \"\"\"", "    )"])

end ConnectDirective

def argText (name : String) : String := "\x7b$args." ++ name ++ "\x7d"

/-- Write `f name` for each `{name}`; the name holds no closing brace and is not empty. While a name
is being read, its characters so far are kept in reverse. -/
def substitute (f : String → String) : Option (List Char) → List Char → List Char
  | none, [] => []
  | some name, [] => '\x7b' :: name.reverse
  | none, c :: cs => if c = '\x7b' then substitute f (some []) cs else c :: substitute f none cs
  | some [], c :: cs =>
    if c = '\x7d' then '\x7b' :: '\x7d' :: substitute f none cs else substitute f (some [c]) cs
  | some (n :: name), c :: cs =>
    if c = '\x7d' then
      (f (String.ofList (n :: name).reverse)).toList ++ substitute f none cs
    else substitute f (some (c :: n :: name)) cs

/-- The argument for a path parameter; one that is not declared is called after the parameter. -/
def pathArgument (args : List ArgDecl) (wireName : String) : String :=
  match args.find? fun a => a.location = some .path ∧ a.wireName = wireName with
  | some a => a.name
  | none => Naming.fieldName wireName

/-- The path with its parameters replaced by arguments, and the required query arguments. -/
def pathTemplate (path : String) (args : List ArgDecl) : String :=
  let filled := String.ofList
    (substitute (fun name => argText (pathArgument args name)) none path.toList)
  let query := (args.filter fun a => a.location = some .query ∧ a.required).map fun a =>
    a.wireName ++ "=" ++ argText a.name
  escapeLiteral <|
    if query.isEmpty then filled
    else filled ++ (if filled.toList.contains '?' then "&" else "?") ++ Text.join "&" query

/-- The header arguments, then the configured headers. -/
def connectHeaders (args : List ArgDecl) (configured : List Header) : List Header :=
  (args.filter fun a => a.location = some .header).map
    (fun a => ⟨escapeLiteral a.wireName, argText a.name⟩) ++
  configured.map fun h => ⟨escapeLiteral h.name, escapeLiteral h.value⟩

end RestGraph
