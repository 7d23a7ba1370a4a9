import RestGraph.Text.Numeral
import RestGraph.Yaml.Glyph
import RestGraph.Yaml.Token

/-!
# Tags, anchors and directives

What follows the indicators `!`, `&`, `*` and `%`.
-/

namespace RestGraph.Yaml

namespace Glyph

def spanWord (gs : List Glyph) : String × List Glyph :=
  let (word, rest) := gs.span fun g => isWordChar g.char
  (String.ofList (chars word), rest)

end Glyph

/-! ## Anchors -/

/-- The name of an anchor or alias; a blank or one of a few indicators follows it. -/
def anchorName? (gs : List Glyph) : Option (String × List Glyph) :=
  let (name, rest) := Glyph.spanWord gs
  let isEnded := Glyph.endsWord rest || "?:,]\x7d%@\x60".toList.any fun c => Glyph.starts c rest
  if !name.isEmpty && isEnded then some (name, rest) else none

/-! ## Tags -/

namespace Tag

def uriChars : List Char := "-_;/?:@&=+$.!~*\x27()".toList

/-- The characters of a tag. A shorthand has no brackets and commas. -/
def isUriChar (isShorthand : Bool) (c : Char) : Bool :=
  c.isAlphanum || uriChars.contains c || (!isShorthand && (c == ',' || c == '[' || c == ']'))

/-- A character of which `left` octets are still to come. -/
structure Unfinished where
  left : Nat
  value : Nat
  /-- The least number of a character with as many octets. -/
  least : Nat

/-- The character that a first octet begins. -/
def leadOctet? (n : Nat) : Option Unfinished :=
  if n < 0x80 then some ⟨0, n, 0⟩
  else if n < 0xC0 then none
  else if n < 0xE0 then some ⟨1, n - 0xC0, 0x80⟩
  else if n < 0xF0 then some ⟨2, n - 0xE0, 0x800⟩
  else if n < 0xF8 then some ⟨3, n - 0xF0, 0x10000⟩
  else none

/-- One more octet of a character, or the first one. -/
def octet? (n : Nat) : Option Unfinished → Option Unfinished
  | none => leadOctet? n
  | some u => if n / 0x40 = 2 then some ⟨u.left - 1, u.value * 0x40 + n % 0x40, u.least⟩ else none

/-- The character, once all its octets are there; it has to be written with as few as possible. -/
def Unfinished.char? (u : Unfinished) : Option Char :=
  if u.least ≤ u.value ∧ u.value.isValidChar then some (Char.ofNat u.value) else none

/-- The characters of a tag, the last one first; an octet may be written as `%` and two digits. -/
def scanUri (isShorthand : Bool) : Option Unfinished → List (Option Char) → List Glyph →
    Option (List (Option Char) × List Glyph)
  | before, text, p :: a :: b :: rest =>
    if p.char = '%' then
      match (Text.readNatural? 16 [a.char, b.char]).bind (octet? · before) with
      | none => none
      | some u =>
        if u.left = 0 then scanUri isShorthand none (u.char? :: text) rest
        else scanUri isShorthand (some u) text rest
    else if before.isSome then none
    else if isUriChar isShorthand p.char then
      scanUri isShorthand none (some p.char :: text) (a :: b :: rest)
    else some (text, p :: a :: b :: rest)
  | before, text, g :: rest =>
    if before.isSome ∨ g.char = '%' then none
    else if isUriChar isShorthand g.char then scanUri isShorthand none (some g.char :: text) rest
    else some (text, g :: rest)
  | before, text, [] => if before.isSome then none else some (text, [])
termination_by structural _ _ gs => gs

def uri? (isShorthand : Bool) (gs : List Glyph) : Option (List (Option Char) × List Glyph) :=
  (scanUri isShorthand none [] gs).map fun (text, rest) => (text.reverse, rest)

/-- The word after an exclamation mark, and whether another exclamation mark closes it. -/
def handle (gs : List Glyph) : String × Bool × List Glyph :=
  let (word, rest) := Glyph.spanWord gs
  match rest with
  | g :: after => if g.char = '!' then (word, true, after) else (word, false, rest)
  | [] => (word, false, [])

/-- A tag after its exclamation mark: `<uri>`, `handle!suffix` or a suffix alone. The mark alone is
the suffix of no handle. -/
def parts? (gs : List Glyph) : Option ((String × TagText) × List Glyph) :=
  match gs with
  | [] => some (("", .ofString "!"), [])
  | g :: rest =>
    if g.char = '<' then
      (uri? false rest).bind fun (uri, rest) =>
        match rest with
        | e :: rest => if e.char = '>' ∧ uri ≠ [] then some (("", .ofChars uri), rest) else none
        | [] => none
    else
      match handle gs with
      | (word, true, rest) =>
        (uri? true rest).bind fun (suffix, rest) =>
          if suffix.isEmpty then none else some (("!" ++ word ++ "!", .ofChars suffix), rest)
      | (word, false, rest) =>
        (uri? true rest).map fun (more, rest) =>
          let suffix := TagText.ofChars (word.toList.map some ++ more)
          if suffix.text = "" then (("", .ofString "!"), rest) else (("!", suffix), rest)

/-- A tag and what follows it: a blank, or a comma inside flow collections. -/
def scan (inFlow : Bool) (gs : List Glyph) : Option (Token × List Glyph) :=
  (parts? gs).bind fun ((handle, suffix), rest) =>
    if Glyph.endsWord rest || (inFlow && Glyph.starts ',' rest) then
      some (.tag handle suffix, rest)
    else none

end Tag

/-! ## Directives -/

namespace Directive

def number? (gs : List Glyph) : Option (Nat × List Glyph) :=
  let (digits, rest) := gs.span fun g => g.char.isDigit
  if digits.length ≤ 9 then
    (Text.readNatural? 10 (Glyph.chars digits)).map fun n => (n, rest)
  else none

def version? (gs : List Glyph) : Option (Token × List Glyph) := do
  let (major, gs) ← number? gs
  match gs with
  | g :: gs =>
    if g.char = '.' then
      let (minor, gs) ← number? gs
      return (.version major minor, gs)
    else none
  | [] => none

def handle? (gs : List Glyph) : Option (Token × List Glyph) :=
  match gs with
  | [] => none
  | g :: gs =>
    if g.char ≠ '!' then none
    else
      let (word, isClosed, gs) := Tag.handle gs
      if !isClosed && word ≠ "" then none
      else match gs with
        | [] => none
        | b :: gs =>
          if !isBlank b.char then none
          else (Tag.uri? false (Glyph.dropBlanks gs)).bind fun (beginning, gs) =>
            if beginning ≠ [] ∧ Glyph.endsWord gs then
              let name := "!" ++ word ++ if isClosed then "!" else ""
              some (.handle name (.ofChars beginning), gs)
            else none

/-- A directive after its percent sign, with the rest of its line. -/
def scan (gs : List Glyph) : Option (Token × List Glyph) := do
  let (name, gs) := Glyph.spanWord gs
  let argument := Glyph.dropBlanks gs
  let (token, gs) ←
    if !Glyph.endsWord gs then none
    else match name with
      | "YAML" => version? argument
      | "TAG" => handle? argument
      | _ => none
  return (token, ← Glyph.endLine? gs)

end Directive

end RestGraph.Yaml
