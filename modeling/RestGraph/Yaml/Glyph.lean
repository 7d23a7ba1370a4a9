/-!
# Characters in their places

A text as a list of characters, each with its line and column. Scanners cut such lists, so that a
place never has to be counted along.
-/

namespace RestGraph.Yaml

structure Glyph where
  char : Char
  line : Nat
  column : Nat
  /-- The number of octets before this one, in UTF-8. -/
  offset : Nat
deriving DecidableEq, Repr

/-- The characters that a text may hold. -/
def isPrintable (c : Char) : Bool :=
  let n := c.toNat
  c == '\t' || c == '\n' || c == '\r' || n == 0x85 || (0x20 ≤ n && n ≤ 0x7E) ||
    (0xA0 ≤ n && n ≤ 0xFFFD) || 0x10000 ≤ n

def isBreak (c : Char) : Bool := c == '\n' || c == '\u2028' || c == '\u2029'

def isBlank (c : Char) : Bool := c == ' ' || c == '\t'

/-- The characters of names: anchors, tag handles and directives. -/
def isWordChar (c : Char) : Bool := c.isAlphanum || c == '_' || c == '-'

def byteOrderMark : Char := '\uFEFF'

/-- Write every line break as a line feed, except the separators U+2028 and U+2029. -/
def unifyBreaks : List Char → List Char
  | '\r' :: '\n' :: cs => '\n' :: unifyBreaks cs
  | c :: cs => (if c == '\r' || c == '\x85' then '\n' else c) :: unifyBreaks cs
  | [] => []

namespace Glyph

def place (line column offset : Nat) : List Char → List Glyph
  | [] => []
  | c :: cs => ⟨c, line, column, offset⟩ ::
    if isBreak c then place (line + 1) 0 (offset + c.utf8Size) cs
    else place line (column + 1) (offset + c.utf8Size) cs

def ofText (text : String) : List Glyph := place 0 0 0 (unifyBreaks text.toList)

def chars (gs : List Glyph) : List Char := gs.map Glyph.char

def starts (c : Char) : List Glyph → Bool
  | g :: _ => g.char == c
  | [] => false

def endsLine : List Glyph → Bool
  | g :: _ => isBreak g.char
  | [] => true

/-- Whether a word ends here: at a blank, a break or the end of the text. -/
def endsWord : List Glyph → Bool
  | g :: _ => isBlank g.char || isBreak g.char
  | [] => true

/-- Whether a line starts here with a word of three times `c`. -/
def isMarker (c : Char) : List Glyph → Bool
  | x :: y :: z :: rest =>
    x.column == 0 && x.char == c && y.char == c && z.char == c && endsWord rest
  | _ => false

def atDocumentMarker (gs : List Glyph) : Bool := isMarker '-' gs || isMarker '.' gs

def dropBlanks (gs : List Glyph) : List Glyph := gs.dropWhile fun g => isBlank g.char

/-- The rest of a line, if it holds only blanks and a comment; the break goes with it. -/
def endLine? (gs : List Glyph) : Option (List Glyph) :=
  let gs := dropBlanks gs
  let gs := if starts '#' gs then gs.dropWhile fun g => !isBreak g.char else gs
  match gs with
  | [] => some []
  | g :: rest => if isBreak g.char then some rest else none

end Glyph

end RestGraph.Yaml
