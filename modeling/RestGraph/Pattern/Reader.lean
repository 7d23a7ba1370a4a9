import RestGraph.Pattern.Class
import RestGraph.Pattern.Part

/-!
# Reading patterns

The usual notation of regular expressions: alternatives, groups, classes, repetitions, escapes and
flags. A reader keeps the groups that are open.
-/

namespace RestGraph.Pattern

/-! ## Repetitions -/

/-- A number of times, which may have blanks around it. -/
def times? (f : Flags) (cs : List Char) : Option (Nat × List Char) :=
  let cs := cs.dropWhile Text.isBlank
  let (digits, rest) := f.span Char.isDigit cs.length cs
  ((Text.readNatural? 10 digits).filter (· < Nat.pow 2 32)).map fun n =>
    (n, rest.dropWhile Text.isBlank)

/-- How often: at least, and at most. -/
abbrev Count := Nat × Option Nat

/-- What braces say of a repetition, after the opening one: `m`, `m,` or `m,n`. -/
def count? (f : Flags) (cs : List Char) : Option (Count × List Char) := do
  let (least, rest) ← times? f (f.skip cs)
  match rest with
  | '\x7d' :: rest => return ((least, some least), rest)
  | ',' :: rest =>
    match f.skip rest with
    | '\x7d' :: rest => return ((least, none), rest)
    | rest => do
      let (most, rest) ← times? f rest
      match rest with
      | '\x7d' :: rest => if least ≤ most then some ((least, some most), rest) else none
      | _ => none
  | _ => none

/-- What follows a repetition; a question mark would make it prefer short matches, which is no
matter here. -/
def afterRepetition (cs : List Char) : List Char :=
  match cs with
  | '?' :: rest => rest
  | rest => rest

/-! ## Groups -/

inductive Opening where
  | group (keeps : Bool) (f : Flags)
  | named (name : List Char)
  /-- Flags for the rest of the enclosing group. -/
  | flags (f : Flags)

def isNameStart (c : Char) : Bool := Text.isAlphabetic c || c == '_'

def isNameChar (c : Char) : Bool := Text.isAlphanumeric c || "_.[]".toList.contains c

def groupName? (cs : List Char) : Option (Opening × List Char) :=
  match cs.span (· != '>') with
  | (c :: name, _ :: rest) =>
    if isNameStart c && name.all isNameChar then some (.named (c :: name), rest) else none
  | _ => none

/-- What follows the parenthesis of a group. -/
def opening? (f : Flags) (cs : List Char) : Option (Opening × List Char) :=
  match f.skip cs with
  | '?' :: 'P' :: '<' :: cs => groupName? cs
  | '?' :: '<' :: cs => groupName? cs
  | '?' :: cs =>
    let (letters, rest) := cs.span fun c => c != ':' && c != ')'
    match rest with
    | ':' :: rest => (f.change? letters).map fun g => (.group false g, rest)
    | _ :: rest =>
      if letters.isEmpty then none else (f.change? letters).map fun g => (.flags g, rest)
    | [] => none
  | cs => some (.group true f, cs)

structure Group where
  keeps : Bool
  /-- The flags that hold again after it. -/
  outside : Flags
  /-- The alternatives before this one, the latest first. -/
  alternatives : List Part
  /-- The parts of this alternative, the latest first. -/
  parts : List Part
  /-- Whether the latest part may be repeated. -/
  canRepeat : Bool

namespace Group

def start (keeps : Bool) (outside : Flags) : Group := ⟨keeps, outside, [], [], false⟩

def add (p : Part) (g : Group) : Group := { g with parts := p :: g.parts, canRepeat := true }

/-- Flags are a part that matches nothing. -/
def addFlags (g : Group) : Group := { g with parts := .empty :: g.parts, canRepeat := false }

def next (g : Group) : Group :=
  { g with
    alternatives := .seq g.parts.reverse :: g.alternatives
    parts := []
    canRepeat := false }

/-- All alternatives. -/
def close (g : Group) : Part := .either g.next.alternatives.reverse

/-- Repeat the latest part. -/
def repeat? (c : Count) (g : Group) : Option Group :=
  match g.parts with
  | p :: parts => if g.canRepeat then some { g with parts := p.repeated c.1 c.2 :: parts } else none
  | [] => none

end Group

/-! ## Patterns -/

structure Reader where
  flags : Flags
  /-- The names that groups have so far. -/
  names : List (List Char)
  group : Group
  /-- The groups around it, the innermost first. -/
  outer : List Group

namespace Reader

def start : Reader := ⟨.default, [], .start false .default, []⟩

def add (p : Part) (r : Reader) : Reader := { r with group := r.group.add p }

def repeat? (c : Count) (rest : List Char) (r : Reader) : Option (Reader × List Char) :=
  (r.group.repeat? c).map fun g => ({ r with group := g }, afterRepetition rest)

def push (keeps : Bool) (f : Flags) (r : Reader) : Reader :=
  { r with flags := f, group := .start keeps r.flags, outer := r.group :: r.outer }

/-- Read what follows an opening parenthesis. -/
def open? (cs : List Char) (r : Reader) : Option (Reader × List Char) := do
  let (o, rest) ← opening? r.flags cs
  match o with
  | .group keeps f => return (r.push keeps f, rest)
  | .named name =>
    if r.names.contains name then none
    else return ({ r.push true r.flags with names := name :: r.names }, rest)
  | .flags f => return ({ r with flags := f, group := r.group.addFlags }, rest)

def close? (r : Reader) : Option Reader :=
  match r.outer with
  | [] => none
  | g :: outer =>
    some ⟨r.group.outside, r.names, g.add (.group r.group.keeps r.group.close), outer⟩

/-- What a point matches: anything but the ends of lines. -/
def point? (f : Flags) : Option Part :=
  let lineEnd : CharSet := if f.returns then .union (.one '\r') (.one '\n') else .one '\n'
  (complement? f (if f.anyPoint then .empty else lineEnd)).map (.char · 0)

def ofChar (f : Flags) (c : Char) : Part := .char (f.inCases (.one c)) 0

def lineStart (f : Flags) : Anchor := if f.eachLine then .lineStart f.returns else .start

def lineFinish (f : Flags) : Anchor := if f.eachLine then .lineFinish f.returns else .finish

def ofEscape (f : Flags) : Escape → Part
  | .char c => ofChar f c
  | .set s => .char s 0
  | .anchor a => .anchor a

def step? (c : Char) (rest : List Char) (r : Reader) : Option (Reader × List Char) :=
  let f := r.flags
  match c with
  | '(' => r.open? rest
  | ')' => r.close?.map fun r => (r, rest)
  | '|' => some ({ r with group := r.group.next }, rest)
  | '[' => (class? f rest).map fun (s, rest) => (r.add (.char s.set s.depth), rest)
  | '?' => r.repeat? (0, some 1) rest
  | '*' => r.repeat? (0, none) rest
  | '+' => r.repeat? (1, none) rest
  | '\x7b' => (count? f rest).bind fun (count, rest) => r.repeat? count (f.skip rest)
  | '.' => (point? f).map fun p => (r.add p, rest)
  | '^' => some (r.add (.anchor (lineStart f)), rest)
  | '$' => some (r.add (.anchor (lineFinish f)), rest)
  | '\\' => (escape? f rest).map fun (e, rest) => (r.add (ofEscape f e), rest)
  | c => some (r.add (ofChar f c), rest)

/-- The whole pattern, once no group is open. -/
def finish? (r : Reader) : Option Part := if r.outer.isEmpty then some r.group.close else none

/-- Read to the end. The first argument bounds the number of steps. -/
def run? : Nat → List Char → Reader → Option Part
  | 0, _, _ => none
  | fuel + 1, cs, r =>
    match r.flags.skip cs with
    | [] => r.finish?
    | c :: rest => (r.step? c rest).bind fun (r, rest) => r.run? fuel rest

end Reader

/-- The pattern that a text stands for, unless its parts nest too deeply. -/
def Part.ofText? (text : String) : Option Part :=
  let cs := text.toList
  (Reader.start.run? (cs.length + 1) cs).filter (·.depth ≤ greatestDepth)

/-- The pattern that a text stands for, unless matching it would take too much room. -/
def ofText? (text : String) : Option Pattern :=
  ((Part.ofText? text).filter (·.size ≤ Part.greatestSize)).map Part.pattern

/-- Whether a text stands for a pattern that can be matched without looking at the words of any
script. -/
def isWordless (text : String) : Bool := (Part.ofText? text).any (!·.pattern.seesWords)

end RestGraph.Pattern
