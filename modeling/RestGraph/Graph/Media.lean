import RestGraph.Json.Basic
import RestGraph.Text.Split

/-!
# JSON payloads

Which media types hold JSON, and the schema of a payload: that of the first JSON media type.
-/

namespace RestGraph.Media

def isLine (cs : List Char) : Bool := !cs.contains '\n'

/-- `json`, perhaps with parameters after a semicolon. -/
def isJsonName (cs : List Char) : Bool :=
  match "json".toList.isPrefixOf? cs with
  | some [] => true
  | some (c :: rest) => c == ';' && isLine rest
  | none => false

/-- Whether a plus sign after something else introduces `json`. -/
def hasJsonSuffix : List Char → Bool
  | [] => false
  | c :: cs => c != '\n' && (plusJson cs || hasJsonSuffix cs)
where
  plusJson : List Char → Bool
    | '+' :: cs => isJsonName cs
    | _ => false

/-- `application/json` or a type with the suffix `+json`, in any case. -/
def isJson (mediaType : String) : Bool :=
  match "application/".toList.isPrefixOf? (mediaType.toList.map Char.toLower) with
  | none => false
  | some cs => isJsonName cs || hasJsonSuffix cs

def schema? (holder : Json) : Option Json :=
  (((holder.get? "content").bind Json.object?).bind fun ms =>
    ms.find? fun (mediaType, _) => isJson mediaType).bind fun (_, media) => media.get? "schema"

end RestGraph.Media
