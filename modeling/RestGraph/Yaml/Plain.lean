import RestGraph.Yaml.Fold

/-!
# Plain scalars

A plain scalar goes on until an indicator, a comment, a document marker or a line that is indented
too little. Inside flow collections their brackets and commas end it too.
-/

namespace RestGraph.Yaml.Plain

/-- A plain scalar and the text after it and after the gap behind it. -/
structure Result where
  text : String
  /-- Whether the gap behind it has a break. -/
  isBroken : Bool
  rest : List Glyph

def isFlowIndicator (c : Char) : Bool :=
  c == ',' || c == '[' || c == ']' || c == '\x7b' || c == '\x7d'

/-- Inside flow collections, a colon may not touch these. -/
def refusesColon (rest : List Glyph) : Bool :=
  match rest with
  | g :: _ => isFlowIndicator g.char || g.char == '?'
  | [] => false

/-- Whether the scalar ends before a character of a word. -/
def endsBefore (inFlow : Bool) (c : Char) (rest : List Glyph) : Bool :=
  (c == ':' && Glyph.endsWord rest) || (inFlow && isFlowIndicator c)

/-- Whether the scalar ends after a gap, before a new word. -/
def endsAfterGap (inFlow : Bool) (indent : Nat) (g : Glyph) (rest : List Glyph) : Bool :=
  (!inFlow && g.column < indent) || g.char == '#' || Glyph.atDocumentMarker (g :: rest)

/-- The rest of a plain scalar whose lines have at least `indent` columns before them. The text so
far is reversed. -/
def scanFrom (inFlow : Bool) (indent : Nat) : Gap → List Char → List Glyph → Option Result
  | gap, text, [] => some ⟨String.ofList text.reverse, gap.isBroken, []⟩
  | gap, text, g :: rest =>
    if isBlank g.char || isBreak g.char then
      if gap.isBroken && g.char == '\t' && g.column < indent then none
      else scanFrom inFlow indent (gap.extend g.char) text rest
    else if !gap.isNone && endsAfterGap inFlow indent g rest then
      some ⟨String.ofList text.reverse, gap.isBroken, g :: rest⟩
    else if inFlow && g.char == ':' && refusesColon rest then none
    else if endsBefore inFlow g.char rest then
      some ⟨String.ofList text.reverse, gap.isBroken, g :: rest⟩
    else scanFrom inFlow indent .none (g.char :: (gap.fold.reverse ++ text)) rest
termination_by structural _ _ gs => gs

def scan (inFlow : Bool) (indent : Nat) (gs : List Glyph) : Option Result :=
  scanFrom inFlow indent .none [] gs

/-- Whether a plain scalar may start here. -/
def starts (inFlow : Bool) (g : Glyph) (rest : List Glyph) : Bool :=
  match g.char with
  | '-' => !Glyph.endsWord rest
  | '?' | ':' => !inFlow && !Glyph.endsWord rest
  | ',' | '[' | ']' | '\x7b' | '\x7d' | '#' | '&' | '*' | '!' | '|' | '>' | '\x27' | '"' | '%'
  | '@' | '\x60' => false
  | c => !isBlank c && !isBreak c

end RestGraph.Yaml.Plain
