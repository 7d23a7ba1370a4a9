import RestGraph.Pattern.Basic
import RestGraph.Pattern.Flags
import RestGraph.Text.Numeral

/-!
# Escapes in patterns

What a backslash and the characters after it stand for. Without the characters of all scripts there
are no properties, and no set may have characters beyond ASCII. All functions answer with the rest
of the text.
-/

namespace RestGraph.Pattern

inductive Escape where
  | char (c : Char)
  | set (s : CharSet)
  | anchor (a : Anchor)
deriving DecidableEq, Repr

/-- A character by its number in hexadecimal digits: so many, or any number of them in braces. Two
digits stand for an octet where only ASCII counts. -/
def hexChar? (f : Flags) (width : Nat) (cs : List Char) : Option (Char × List Char) :=
  let charOf? (digits : List Char) : Option Char :=
    ((Text.readNatural? 16 digits).filter (·.isValidChar)).map Char.ofNat
  match f.skip cs with
  | '\x7b' :: cs => do
    let (digits, rest) ← f.braced? cs
    return (← charOf? digits, rest)
  | cs => do
    let (digits, rest) := f.span (fun c => (Text.digitValue? 16 c).isSome) width cs
    let c ← charOf? digits
    let isText := f.anyScript || width != 2 || c.toNat < 0x80
    if digits.length = width && isText then some (c, rest) else none

def propertySet? (f : Flags) (cs : List Char) : Option (CharSet × List Char) :=
  if !f.anyScript then none
  else match f.skip cs with
    | '\x7b' :: cs => do
      let (name, rest) ← f.braced? cs
      return (f.inCases (← CharSet.property? name), rest)
    | c :: rest => (CharSet.property? [c]).map fun s => (f.inCases s, rest)
    | [] => none

/-- The complement of a set; it has characters beyond ASCII. -/
def complement? (f : Flags) (s : CharSet) : Option CharSet :=
  if f.anyScript then some (.complement s) else none

def namedSet? (f : Flags) (c : Char) : Option CharSet :=
  let pick (s ascii : CharSet) : CharSet := if f.anyScript then s else ascii
  let digits := pick .digit .asciiDigit
  let blanks := pick .blank .asciiBlank
  let words := pick .word .asciiWord
  match c with
  | 'd' => some digits
  | 's' => some blanks
  | 'w' => some words
  | 'D' => complement? f digits
  | 'S' => complement? f blanks
  | 'W' => complement? f words
  | _ => none

def controlChar? (c : Char) : Option Char :=
  match c with
  | 'a' => some '\x07'
  | 'f' => some '\x0c'
  | 'n' => some '\n'
  | 'r' => some '\r'
  | 't' => some '\t'
  | 'v' => some '\x0b'
  | _ => none

def namedAnchor? (f : Flags) (c : Char) : Option Anchor :=
  match c with
  | 'A' => some .start
  | 'z' => some .finish
  | 'b' => some (.word f.anyScript .either)
  | 'B' => some (.word f.anyScript .neither)
  | '<' => some (.word f.anyScript .start)
  | '>' => some (.word f.anyScript .finish)
  | _ => none

def wordEdge? (name : List Char) : Option WordEdge :=
  match String.ofList name with
  | "start" => some .start
  | "end" => some .finish
  | "start-half" => some .unpreceded
  | "end-half" => some .unfollowed
  | _ => none

/-- The edge of a word after `\b`, which may have a name in braces. What does not begin like a name
is a repetition. -/
def edge? (f : Flags) (cs : List Char) : Option (Anchor × List Char) :=
  let isNameChar (c : Char) : Bool := c.isAlpha || c == '-'
  let plain := (Anchor.word f.anyScript .either, cs)
  match cs with
  | '\x7b' :: inner =>
    match f.skip inner with
    | [] => none
    | c :: inner =>
      if isNameChar c then do
        let (name, rest) ← f.braced? (c :: inner)
        return (.word f.anyScript (← wordEdge? name), rest)
      else some plain
  | _ => some plain

/-- Punctuation stands for itself after a backslash. -/
def isPunctuation (c : Char) : Bool :=
  c.toNat < 0x80 && !c.isAlphanum

def simpleEscape? (f : Flags) (c : Char) : Option Escape :=
  match controlChar? c, namedAnchor? f c, namedSet? f c with
  | some d, _, _ => some (.char d)
  | _, some a, _ => some (.anchor a)
  | _, _, some s => some (.set s)
  | _, _, _ => if isPunctuation c then some (.char c) else none

def escape? (f : Flags) (cs : List Char) : Option (Escape × List Char) :=
  match cs with
  | [] => none
  | 'x' :: rest => (hexChar? f 2 rest).map fun (c, rest) => (.char c, rest)
  | 'u' :: rest => (hexChar? f 4 rest).map fun (c, rest) => (.char c, rest)
  | 'U' :: rest => (hexChar? f 8 rest).map fun (c, rest) => (.char c, rest)
  | 'p' :: rest => (propertySet? f rest).map fun (s, rest) => (.set s, rest)
  | 'P' :: rest => (propertySet? f rest).map fun (s, rest) => (.set (.complement s), rest)
  | 'b' :: rest => (edge? f rest).map fun (a, rest) => (.anchor a, rest)
  | c :: rest => (simpleEscape? f c).map fun e => (e, rest)

end RestGraph.Pattern
