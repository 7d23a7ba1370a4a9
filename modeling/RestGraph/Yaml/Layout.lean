import RestGraph.Yaml.Block
import RestGraph.Yaml.Plain
import RestGraph.Yaml.Quoted
import RestGraph.Yaml.Tag

/-!
# Layout

The tokens of a text. Columns open and close blocks, and what stands before a colon on one line
turns out to be a key only at the colon, so the tokens that say so are put in afterwards.
-/

namespace RestGraph.Yaml

/-- What may turn out to be a key. -/
structure Candidate where
  /-- The number of tokens before it. -/
  index : Nat
  place : Glyph
  /-- Nothing but a key can stand there. -/
  isRequired : Bool

/-- A key has a single line and at most 1024 octets. -/
def Candidate.isExpired (k : Candidate) (now : Glyph) : Bool :=
  k.place.line < now.line || k.place.offset + 1024 < now.offset

structure Layout where
  /-- The tokens so far, the last one first, and their number. -/
  tokens : List Token
  count : Nat
  /-- The columns of the open blocks, the innermost first. -/
  columns : List Nat
  candidate : Option Candidate
  /-- The candidates outside the open flow collections, the innermost first. -/
  outer : List (Option Candidate)
  /-- Whether a key may start here. -/
  keyAllowed : Bool

namespace Layout

def start : Layout := ⟨[], 0, [], none, [], true⟩

def inFlow (l : Layout) : Bool := !l.outer.isEmpty

/-- The least column inside the innermost block. -/
def indent (l : Layout) : Nat :=
  match l.columns with
  | c :: _ => c + 1
  | [] => 0

def allowKey (allowed : Bool) (l : Layout) : Layout := { l with keyAllowed := allowed }

def put (t : Token) (l : Layout) : Layout :=
  { l with tokens := t :: l.tokens, count := l.count + 1 }

/-- Put in a token that has `index` tokens before it. -/
def putAt (index : Nat) (t : Token) (l : Layout) : Layout :=
  { l with tokens := l.tokens.insertIdx (l.count - index) t, count := l.count + 1 }

/-- Close the blocks whose columns are as given. In flow collections columns do not matter. -/
def closeBlocks (p : Nat → Bool) (l : Layout) : Layout :=
  if l.inFlow then l
  else
    let (closed, columns) := l.columns.span p
    { l with
      tokens := closed.map (fun _ => Token.blockEnd) ++ l.tokens
      count := l.count + closed.length
      columns }

/-- Open a block at a column, unless the innermost has it already. -/
def openBlock (column : Nat) (index : Nat) (t : Token) (l : Layout) : Layout :=
  if l.inFlow || column < l.indent then l
  else putAt index t { l with columns := column :: l.columns }

/-- Forget the candidate, unless it has to be a key. -/
def dropCandidate? (l : Layout) : Option Layout :=
  if l.candidate.any Candidate.isRequired then none else some { l with candidate := none }

/-- What starts here may turn out to be a key. -/
def propose? (g : Glyph) (l : Layout) : Option Layout :=
  if l.keyAllowed then
    l.dropCandidate?.map fun l =>
      { l with candidate := some ⟨l.count, g, !l.inFlow && l.columns.head? == some g.column⟩ }
  else some l

/-- Forget the candidates that are too far back. -/
def expire? (now : Glyph) (l : Layout) : Option Layout :=
  let isLost (k : Option Candidate) : Bool := k.any fun k => k.isExpired now && k.isRequired
  let keep (k : Option Candidate) : Option Candidate := k.filter fun k => !k.isExpired now
  if isLost l.candidate || l.outer.any isLost then none
  else some { l with candidate := keep l.candidate, outer := l.outer.map keep }

/-! ## Indicators -/

def openFlow? (t : Token) (g : Glyph) (l : Layout) : Option Layout :=
  (l.propose? g).map fun l =>
    put t { l with candidate := none, outer := l.candidate :: l.outer, keyAllowed := true }

def closeFlow? (t : Token) (l : Layout) : Option Layout :=
  l.dropCandidate?.map fun l =>
    put t <| match l.outer with
      | k :: outer => { l with candidate := k, outer, keyAllowed := false }
      | [] => { l with keyAllowed := false }

def flowEntry? (l : Layout) : Option Layout :=
  l.dropCandidate?.map fun l => put .flowEntry (l.allowKey true)

/-- An indicator that opens a block: a dash or a question mark. -/
def blockIndicator? (block t : Token) (allowed : Bool) (g : Glyph) (l : Layout) :
    Option Layout :=
  if !l.inFlow && !l.keyAllowed then none
  else (l.openBlock g.column l.count block).dropCandidate?.map fun l => put t (l.allowKey allowed)

/-- A colon. The candidate, if there is one, is the key before it. -/
def value? (g : Glyph) (l : Layout) : Option Layout :=
  match l.candidate with
  | some k =>
    let l := (l.putAt k.index .key).openBlock k.place.column k.index .blockMapping
    some (put .value { l with candidate := none, keyAllowed := false })
  | none =>
    if l.inFlow then some (put .value (l.allowKey false))
    else if l.keyAllowed then
      some (put .value ((l.openBlock g.column l.count .blockMapping).allowKey true))
    else none

/-- A line that stands outside of all blocks: a directive or a document marker. -/
def outside? (t : Token) (l : Layout) : Option Layout :=
  (l.closeBlocks fun _ => true).dropCandidate?.map fun l => put t (l.allowKey false)

/-- A token that may begin a key. -/
def inline? (t : Token) (g : Glyph) (l : Layout) : Option Layout :=
  (l.propose? g).map fun l => put t (l.allowKey false)

/-! ## Scanning -/

/-- Skip blanks, comments and breaks. A tab may not stand where a key may start. The answer says
whether a key may start after them. -/
def skipGap (inFlow : Bool) : Bool → Bool → List Glyph → Bool × List Glyph
  | _, allowed, [] => (allowed, [])
  | isComment, allowed, g :: rest =>
    if isBreak g.char then skipGap inFlow false (allowed || !inFlow) rest
    else if isComment || g.char == '#' then skipGap inFlow true allowed rest
    else if g.char == ' ' || (g.char == '\t' && (inFlow || !allowed)) ||
        (g.char == byteOrderMark && g.column == 0) then
      skipGap inFlow false allowed rest
    else (allowed, g :: rest)

def token? (l : Layout) (g : Glyph) (rest : List Glyph) : Option (Layout × List Glyph) :=
  if g.char = '%' ∧ g.column = 0 then do
    let (t, rest) ← Directive.scan rest
    return (← l.outside? t, rest)
  else if Glyph.isMarker '-' (g :: rest) then
    (l.outside? .documentStart).map fun l => (l, rest.drop 2)
  else if Glyph.isMarker '.' (g :: rest) then
    (l.outside? .documentEnd).map fun l => (l, rest.drop 2)
  else if Plain.starts l.inFlow g rest then do
    let l ← l.propose? g
    let r ← Plain.scan l.inFlow l.indent (g :: rest)
    return (put (.scalar r.text true) (l.allowKey r.isBroken), r.rest)
  else match g.char with
    | '[' => (l.openFlow? .flowSequence g).map fun l => (l, rest)
    | '\x7b' => (l.openFlow? .flowMapping g).map fun l => (l, rest)
    | ']' => (l.closeFlow? .flowSequenceEnd).map fun l => (l, rest)
    | '\x7d' => (l.closeFlow? .flowMappingEnd).map fun l => (l, rest)
    | ',' => l.flowEntry?.map fun l => (l, rest)
    | '-' => (l.blockIndicator? .blockSequence .entry true g).map fun l => (l, rest)
    | '?' => (l.blockIndicator? .blockMapping .key (!l.inFlow) g).map fun l => (l, rest)
    | ':' => (l.value? g).map fun l => (l, rest)
    | '*' => do
      let (name, rest) ← anchorName? rest
      return (← l.inline? (.alias name) g, rest)
    | '&' => do
      let (name, rest) ← anchorName? rest
      return (← l.inline? (.anchor name) g, rest)
    | '!' => do
      let (t, rest) ← Tag.scan l.inFlow rest
      return (← l.inline? t g, rest)
    | '"' | '\x27' => do
      let (text, rest) ← Quoted.scan g.char rest
      return (← l.inline? (.scalar text false) g, rest)
    | '|' | '>' =>
      if l.inFlow then none
      else do
        let l ← l.dropCandidate?
        let (text, rest) ← Block.scan (g.char = '>') l.indent rest
        return (put (.scalar text false) (l.allowKey true), rest)
    | _ => none

/-- The tokens of a text, each of which has at least one character. -/
def scanFrom : Nat → Layout → List Glyph → Option (List Token)
  | 0, _, _ => none
  | fuel + 1, l, gs =>
    match skipGap l.inFlow false l.keyAllowed gs with
    | (_, []) => ((l.closeBlocks fun _ => true).dropCandidate?).map fun l => l.tokens.reverse
    | (allowed, g :: rest) => do
      let l ← (l.allowKey allowed).expire? g
      let (l, rest) ← (l.closeBlocks (g.column < ·)).token? g rest
      scanFrom fuel l rest

def scan (gs : List Glyph) : Option (List Token) := scanFrom (gs.length + 1) .start gs

end Layout

end RestGraph.Yaml
