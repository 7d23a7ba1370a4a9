import RestGraph.Text.Numeral
import RestGraph.Yaml.Fold

/-!
# Block scalars

A header says whether lines are kept or folded, how deep they are indented and what becomes of the
breaks at the end. Then come the lines, up to the first that is indented less.
-/

namespace RestGraph.Yaml.Block

/-- What becomes of the breaks at the end. -/
inductive Chomp where
  /-- All go. -/
  | strip
  /-- One stays. -/
  | clip
  /-- All stay. -/
  | keep
deriving DecidableEq, Repr

structure Header where
  chomp : Chomp
  /-- How much deeper than the enclosing block the lines are; unknown until the first is seen. -/
  increment : Option Nat

def chompOf? (c : Char) : Option Chomp :=
  match c with
  | '+' => some .keep
  | '-' => some .strip
  | _ => none

/-- The digit of an indentation, if there is one; zero is refused. -/
def increment? (gs : List Glyph) : Option (Option Nat × List Glyph) :=
  match gs with
  | g :: rest => match Text.digitValue? 10 g.char with
    | some 0 => none
    | some n => some (some n, rest)
    | none => some (none, gs)
  | [] => some (none, [])

def chomp (gs : List Glyph) : Option Chomp × List Glyph :=
  match gs with
  | g :: rest => match chompOf? g.char with
    | some c => (some c, rest)
    | none => (none, gs)
  | [] => (none, [])

/-- The two parts of a header come in either order. -/
def header? (gs : List Glyph) : Option (Header × List Glyph) := do
  let (first, gs) := chomp gs
  let (increment, gs) ← increment? gs
  let (second, gs) := if first.isSome then (none, gs) else
    if increment.isSome then chomp gs else (none, gs)
  return (⟨(first.or second).getD .clip, increment⟩, ← Glyph.endLine? gs)

/-- The breaks and spaces before the first line: the breaks, the last one first, the deepest column
that is reached, and the line. A tab may not stand there. -/
def leading : List Char → Nat → List Glyph → Option (List Char × Nat × List Glyph)
  | breaks, deepest, [] => some (breaks, deepest, [])
  | breaks, deepest, g :: rest =>
    let deepest := max deepest g.column
    if g.char = ' ' then leading breaks deepest rest
    else if g.char = '\t' then none
    else if isBreak g.char then leading (g.char :: breaks) deepest rest
    else some (breaks, deepest, g :: rest)

/-- The lines read so far. All lists are reversed. -/
structure Lines where
  text : List Char
  /-- The break after the last line. -/
  last : Option Char
  /-- The breaks of the empty lines after it. -/
  empty : List Char
  /-- Whether the last line starts with a blank. Such lines are not folded. -/
  isIndented : Bool

/-- Start a line with a character: what stands between it and the last line is now known. -/
def Lines.start (folded : Bool) (c : Char) (l : Lines) : Lines :=
  let joint :=
    if folded && l.last == some '\n' && !l.isIndented && !isBlank c then
      if l.empty.isEmpty then [' '] else []
    else l.last.toList
  { text := c :: (l.empty ++ (joint ++ l.text))
    last := none
    empty := []
    isIndented := isBlank c }

def Lines.finish (chomp : Chomp) (l : Lines) : String :=
  let ending := match chomp with
    | .strip => []
    | .clip => l.last.toList
    | .keep => l.empty ++ l.last.toList
  String.ofList (ending ++ l.text).reverse

/-- Read lines at an indentation. Within a line everything is text. -/
def lines (folded : Bool) (indent : Nat) : Bool → Lines → List Glyph → Option (Lines × List Glyph)
  | _, l, [] => some (l, [])
  | true, l, g :: rest =>
    if isBreak g.char then lines folded indent false { l with last := some g.char } rest
    else lines folded indent true { l with text := g.char :: l.text } rest
  | false, l, g :: rest =>
    if g.column < indent ∧ g.char = ' ' then lines folded indent false l rest
    else if g.column < indent ∧ g.char = '\t' then none
    else if isBreak g.char then lines folded indent false { l with empty := g.char :: l.empty } rest
    else if g.column = indent then lines folded indent true (l.start folded g.char) rest
    else some (l, g :: rest)

/-- A block scalar after its indicator. `outer` is the least indentation inside the enclosing
block. -/
def scan (folded : Bool) (outer : Nat) (gs : List Glyph) : Option (String × List Glyph) := do
  let (header, gs) ← header? gs
  let (empty, indent, gs) ← match header.increment with
    | some n => pure ([], (outer - 1) + n, gs)
    | none => do
      let (breaks, deepest, gs) ← leading [] 0 gs
      pure (breaks, max 1 (max outer deepest), gs)
  let (l, gs) ← lines folded indent false ⟨[], none, empty, false⟩ gs
  return (l.finish header.chomp, gs)

end RestGraph.Yaml.Block
