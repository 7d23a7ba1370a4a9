/-!
# Tokens of a YAML text

Indicators and scalars in their order. Where blocks begin and end is a token of its own.
-/

namespace RestGraph.Yaml

/-- The text of a tag, of which single octets may be written. Those that make no character stand in
it as U+FFFD; a NUL ends it. -/
structure TagText where
  text : String
  isSound : Bool
deriving DecidableEq, Repr

namespace TagText

def ofChars (cs : List (Option Char)) : TagText :=
  let cs := cs.takeWhile (· != some '\x00')
  ⟨String.ofList (cs.map (·.getD '\uFFFD')), cs.all Option.isSome⟩

def ofString (s : String) : TagText := ⟨s, true⟩

def append (s t : TagText) : TagText := ⟨s.text ++ t.text, s.isSound && t.isSound⟩

end TagText

inductive Token where
  | version (major minor : Nat)
  /-- From now on a tag handle stands for a beginning of tags. -/
  | handle (name : String) (beginning : TagText)
  | documentStart
  | documentEnd
  | blockSequence
  | blockMapping
  | blockEnd
  | flowSequence
  | flowSequenceEnd
  | flowMapping
  | flowMappingEnd
  /-- The dash before an item. -/
  | entry
  /-- The comma between items. -/
  | flowEntry
  | key
  | value
  | alias (name : String)
  | anchor (name : String)
  | tag (handle : String) (suffix : TagText)
  | scalar (text : String) (plain : Bool)
deriving DecidableEq, Repr

end RestGraph.Yaml
