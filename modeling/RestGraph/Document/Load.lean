import RestGraph.Document.Basic
import RestGraph.Document.Model
import RestGraph.Document.PathItem
import RestGraph.Fault
import RestGraph.Json.Reader
import RestGraph.Yaml.Reader

/-!
# Loading a description

Text becomes a document in four steps: read, check the version, strip the path items, validate.
-/

namespace RestGraph.Document

/-- The last part of a path that names something. -/
def fileName? (path : String) : Option String :=
  match ((Text.split '/' path).filter fun c => !c.isEmpty && c != ".").getLast? with
  | some ".." => none
  | name => name

/-- What follows the last dot of the file name; a dot at its start begins no extension. -/
def extension? (path : String) : Option String :=
  (fileName? path).bind fun name =>
    match (Text.split '.' name).reverse with
    | [] | [_] => none
    | [_, ""] => none
    | ending :: _ => some ending

def isYamlPath (path : String) : Bool :=
  match extension? path with
  | some e => e == "yaml" || e == "yml"
  | none => false

/-- The version of a description that is not supported, if it is not. -/
def versionFault? (root : Json) : Option String :=
  match root.textAt? "openapi" with
  | some version => if Text.startsWith "3." version then none else some version
  | none => some ((root.textAt? "swagger").getD "unknown")

def validate (root : Json) : Except DocumentFault Unit :=
  if Model.isDescription root then
    match root.referenceIssues with
    | [] => .ok ()
    | issues => .error (.references issues)
  else .error .invalid

/-- Read a description from text; the path decides between YAML and JSON. -/
def ofText (path text : String) (skipValidation : Bool) : Except DocumentFault Document :=
  match if isYamlPath path then Yaml.read? text else Json.read? text with
  | none => .error .malformed
  | some root =>
    match versionFault? root with
    | some version => .error (.version version)
    | none =>
      let root := PathItem.stripDocument root
      if skipValidation then .ok ⟨root⟩ else (validate root).map fun _ => ⟨root⟩

end RestGraph.Document
