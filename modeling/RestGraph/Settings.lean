import RestGraph.Text.Blank
import RestGraph.Text.Numeral
import RestGraph.Text.Split

/-!
# Settings

What shapes the generated schema without being part of the description, and where it comes from.
-/

namespace RestGraph

/-- A header that is sent with every request. -/
structure Header where
  name : String
  value : String
deriving DecidableEq, Repr

namespace Header

/-- Read `name: value`; the name may not be blank. -/
def ofText? (raw : String) : Option Header :=
  (Text.cut? ':' raw).bind fun (name, value) =>
    let name := Text.trim name
    if name.isEmpty then none else some ⟨name, Text.trim value⟩

def display (h : Header) : String := h.name ++ ": " ++ h.value

end Header

structure Settings where
  /-- The name of the source that every directive refers to. -/
  sourceName : String
  /-- Takes the place of the address of the first server. -/
  baseUrl : Option String
  headers : List Header
  federationVersion : String
  connectVersion : String
  /-- The number of operations that the picker shows at a time. -/
  pageSize : Nat

namespace Settings

def default : Settings := ⟨"api", none, [], "v2.10", "v0.1", 20⟩

/-- The settings that environment variables make. -/
def ofEnvironment (lookup : String → Option String) : Settings :=
  let get (name : String) := lookup ("CONNECTOR_GEN_" ++ name)
  { sourceName := ((get "SOURCE_NAME").filter fun s => !Text.isBlankText s).getD default.sourceName
    baseUrl := (get "BASE_URL").filter fun s => !s.isEmpty
    headers := match get "HEADERS" with
      | some raw => (Text.split ';' raw).filterMap Header.ofText?
      | none => []
    federationVersion := (get "FEDERATION_VERSION").getD default.federationVersion
    connectVersion := (get "CONNECT_VERSION").getD default.connectVersion
    pageSize := (((get "PAGE_SIZE").bind Text.readWord?).filter (0 < ·)).getD default.pageSize }

def fallbackUrl : String := "http://localhost"

/-- The address of the source: configured, else declared, else local. Slashes at its end go. -/
def resolveBaseUrl (s : Settings) (declared : Option String) : String :=
  let url := (s.baseUrl.or declared).getD fallbackUrl
  String.ofList (Text.dropEnd (· == '/') url.toList)

end Settings

end RestGraph
