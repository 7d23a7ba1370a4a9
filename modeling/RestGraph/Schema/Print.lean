import RestGraph.Schema.Connect
import RestGraph.Schema.Mapping
import RestGraph.Schema.Names

/-!
# The schema text

Declarations and root fields in GraphQL syntax, and the whole schema around them.
-/

namespace RestGraph

/-- The lines of a text; a line feed at the end begins no further line. -/
def linesOf (text : String) : List String :=
  let pieces := Text.split '\n' text
  if pieces.getLast? = some "" then pieces.dropLast else pieces

/-- A description as a string literal; one of several lines becomes a block. -/
def descriptionLines (description indent : String) : List String :=
  if description.toList.contains '\n' then
    [indent ++ "\"\"\""] ++
    (linesOf description).map (fun line =>
      Text.trimEnd (indent ++ Text.replace "\"\"\"" "\\\"\"\"" line)) ++
    [indent ++ "\"\"\""]
  else [indent ++ "\"" ++ escapeLiteral description ++ "\""]

def optionalLines (description : Option String) (indent : String) : List String :=
  match description with
  | some text => descriptionLines text indent
  | none => []

def commentText (comment : Option String) : String :=
  match comment with
  | some text => " # " ++ text
  | none => ""

/-- The type of a field or argument, marked where a value is required. -/
def markedType (ns : TypeNames) (type : TypeRef) (required : Bool) : String :=
  ns.render type ++ (if required then "!" else "")

def fieldLines (ns : TypeNames) (input : Bool) (f : FieldDecl) : List String :=
  optionalLines f.description "  " ++
    ["  " ++ f.name ++ ": " ++ markedType ns f.type (input && f.required) ++ commentText f.comment]

def declLines (ns : TypeNames) (t : TypeDecl) (name : String) : List String :=
  let content := match t.definition with
    | .enum values => ("enum " ++ name ++ " \x7b") :: values.map ("  " ++ ·)
    | .object fields =>
      ((if t.input then "input " else "type ") ++ name ++ " \x7b") ::
        fields.flatMap (fieldLines ns t.input)
  optionalLines t.description "" ++ content ++ ["\x7d", ""]

def operationDirective (g : Graph) (c : Collection) (s : Settings) (o : OperationDecl) :
    ConnectDirective :=
  { source := escapeLiteral s.sourceName
    method := o.method
    path := pathTemplate o.path o.args
    headers := connectHeaders o.args s.headers
    body := match o.body with
      | some (body, arg) => bodyLines g body arg
      | none => []
    selection := match o.response with
      | some response => responseLines g c response
      | none => ["$"] }

def rootFieldLines (g : Graph) (c : Collection) (s : Settings) (ns : TypeNames)
    (o : OperationDecl) : List String :=
  let args := o.args.map fun a => a.name ++ ": " ++ markedType ns a.type a.required
  let parameters := if args.isEmpty then "" else "(" ++ Text.join ", " args ++ ")"
  optionalLines o.description "  " ++
    ["  " ++ o.name ++ parameters ++ ": " ++ ns.render o.returns ++ commentText o.comment,
      (operationDirective g c s o).render]

def rootTypeLines (name : String) (fields : List (List String)) : List String :=
  if fields.isEmpty then [] else ("type " ++ name ++ " \x7b") :: fields.flatten ++ ["\x7d", ""]

def headLines (s : Settings) (declaredUrl : Option String) : List String :=
  ["extend schema",
    "  @link(url: \"https://specs.apollo.dev/federation/" ++ s.federationVersion ++
      "\", import: [\"@key\"])",
    "  @link(url: \"https://specs.apollo.dev/connect/" ++ s.connectVersion ++
      "\", import: [\"@connect\", \"@source\"])",
    "  @source(name: \"" ++ escapeLiteral s.sourceName ++ "\", http: \x7b baseURL: \"" ++
      escapeLiteral (s.resolveBaseUrl declaredUrl) ++ "\" \x7d)",
    ""]

def schemaLines (d : Document) (c : Collection) (s : Settings) (draft : Draft)
    (operations : List OperationDecl) : List String :=
  let g := draft.run.graph
  let ns := draft.typeNames
  let fields := rootFieldLines g c s ns
  headLines s d.baseUrl? ++
    (if draft.usesJson then ["scalar JSON", ""] else []) ++
    draft.written.flatMap (fun (t, i) => declLines ns t (ns.nameAt i)) ++
    rootTypeLines "Query" ((operations.filter fun o => o.method.isQuery).map fields) ++
    rootTypeLines "Mutation" ((operations.filter fun o => !o.method.isQuery).map fields)

namespace Build

/-- Declare all that a selection needs; the root fields come with the declarations. -/
def draft (d : Document) (c : Collection) : Build (Draft × List OperationDecl) := do
  let drafting : Drafting (List OperationDecl) := do
    Drafting.declareContainers d c
    c.operations.mapM (Drafting.operation d c)
  let (result, s) := drafting.run (Draft.start (← get))
  set s.run
  return (s, ← liftExcept result)

/-- The schema for a selection, as text that ends in one line feed. -/
def generate (d : Document) (c : Collection) (s : Settings) : Build String := do
  let (draft, operations) ← draft d c
  return Text.trimEnd (Text.join "\n" (schemaLines d c s draft operations)) ++ "\n"

end Build

end RestGraph
