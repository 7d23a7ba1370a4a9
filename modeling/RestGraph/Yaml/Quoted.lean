import RestGraph.Text.Numeral
import RestGraph.Yaml.Fold

/-!
# Quoted scalars

Between single quotes only the quote itself is written twice; between double quotes there are
escapes. In both, lines are folded.
-/

namespace RestGraph.Yaml.Quoted

/-- What is expected next inside double quotes. -/
inductive Mode where
  | text
  /-- So many more hexadecimal digits of a character, and the value of those before. -/
  | digits (left value : Nat)
deriving DecidableEq, Repr

def letter? (c : Char) : Option Char :=
  match c with
  | '0' => some '\x00'
  | 'a' => some '\x07'
  | 'b' => some '\x08'
  | 't' | '\t' => some '\t'
  | 'n' => some '\n'
  | 'v' => some '\x0b'
  | 'f' => some '\x0c'
  | 'r' => some '\r'
  | 'e' => some '\x1b'
  | ' ' => some ' '
  | '"' => some '"'
  | '/' => some '/'
  | '\\' => some '\\'
  | 'N' => some '\x85'
  | '_' => some '\xa0'
  | 'L' => some '\u2028'
  | 'P' => some '\u2029'
  | _ => none

/-- How many digits follow an escape letter. -/
def digitCount? (c : Char) : Option Nat :=
  match c with
  | 'x' => some 2
  | 'u' => some 4
  | 'U' => some 8
  | _ => none

/-- A character by its number; surrogates and what lies beyond Unicode are none. -/
def ofNumber? (n : Nat) : Option Char := if n.isValidChar then some (Char.ofNat n) else none

/-- The rest of a double-quoted scalar. The text so far is reversed. -/
def scanDouble : Mode → Gap → List Char → List Glyph → Option (List Char × List Glyph)
  | _, _, _, [] => none
  | .digits left value, gap, text, g :: rest =>
    match Text.digitValue? 16 g.char with
    | none => none
    | some d =>
      let value := value * 16 + d
      if left = 1 then
        match ofNumber? value with
        | some c => scanDouble .text gap (c :: text) rest
        | none => none
      else scanDouble (.digits (left - 1) value) gap text rest
  | .text, gap, text, g :: rest =>
    if g.column = 0 ∧ Glyph.atDocumentMarker (g :: rest) then none
    else if isBlank g.char || isBreak g.char then scanDouble .text (gap.extend g.char) text rest
    else
      let text := gap.fold.reverse ++ text
      if g.char = '"' then some (text.reverse, rest)
      else if g.char = '\\' then
        match rest with
        | [] => none
        | e :: rest =>
          if isBreak e.char then scanDouble .text (.breaks none []) text rest
          else match digitCount? e.char with
            | some n => scanDouble (.digits n 0) .none text rest
            | none => match letter? e.char with
              | some c => scanDouble .text .none (c :: text) rest
              | none => none
      else scanDouble .text .none (g.char :: text) rest
termination_by structural _ _ _ gs => gs

/-- The rest of a single-quoted scalar. The text so far is reversed. -/
def scanSingle : Gap → List Char → List Glyph → Option (List Char × List Glyph)
  | _, _, [] => none
  | gap, text, g :: rest =>
    if g.column = 0 ∧ Glyph.atDocumentMarker (g :: rest) then none
    else if isBlank g.char || isBreak g.char then scanSingle (gap.extend g.char) text rest
    else
      let text := gap.fold.reverse ++ text
      if g.char = '\x27' then
        match rest with
        | q :: rest =>
          if q.char = '\x27' then scanSingle .none ('\x27' :: text) rest
          else some (text.reverse, q :: rest)
        | [] => some (text.reverse, [])
      else scanSingle .none (g.char :: text) rest
termination_by structural _ _ gs => gs

/-- What follows an opening quote, up to and without the closing one. -/
def scan (quote : Char) (gs : List Glyph) : Option (String × List Glyph) :=
  (if quote = '"' then scanDouble .text .none [] gs else scanSingle .none [] gs).map
    fun (text, rest) => (String.ofList text, rest)

end RestGraph.Yaml.Quoted
