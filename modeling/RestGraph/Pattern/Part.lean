import RestGraph.Pattern.Basic

/-!
# Parts of patterns

Patterns as they are written: how deeply their parts nest, and about how much room a matcher needs.
-/

namespace RestGraph.Pattern

structure Part where
  pattern : Pattern
  depth : Nat
  /-- A number of octets. -/
  size : Nat
deriving DecidableEq, Repr

namespace Part

def greatestDepth : Nat := 250

def greatestSize : Nat := 10 * Nat.pow 2 20

def empty : Part := ⟨.empty, 0, 32⟩

def anchor (a : Anchor) : Part := ⟨.anchor a, 0, 32⟩

/-- One character of a set, which is written with brackets of some depth. -/
def char (set : CharSet) (depth : Nat) : Part := ⟨.char set, depth, set.size⟩

def totalSize (ps : List Part) : Nat := (ps.map Part.size).foldl (· + ·) 0

def maxDepth (ps : List Part) : Nat := (ps.map Part.depth).foldl max 0

/-- Parts one after the other. Two or more of them are one level deeper. -/
def seq (ps : List Part) : Part :=
  match ps with
  | [] => empty
  | [p] => p
  | p :: rest =>
    ⟨rest.foldl (fun q r => .seq q r.pattern) p.pattern, maxDepth ps + 1, totalSize ps⟩

/-- Alternatives. Two or more of them are one level deeper. -/
def either (ps : List Part) : Part :=
  match ps with
  | [] => empty
  | [p] => p
  | p :: rest =>
    ⟨rest.foldl (fun q r => .either q r.pattern) p.pattern, maxDepth ps + 1,
      totalSize ps + 8 * ps.length + 64⟩

/-- A part in parentheses, which perhaps keep what it matches. -/
def group (keeps : Bool) (p : Part) : Part :=
  ⟨p.pattern, p.depth + 1, p.size + if keeps then 64 else 0⟩

/-- A part some times over; once or not at all is often enough for one that takes no characters. -/
def repeated (p : Part) (least : Nat) (most : Option Nat) : Part :=
  let (least, most) :=
    if p.pattern.isEmpty then (min least 1, some ((most.getD 1).min 1)) else (least, most)
  let copies := most.getD (max least 1)
  ⟨.repeated p.pattern least most, p.depth + 1,
    copies * p.size + (copies - least) * 48 + 32⟩

end Part

end RestGraph.Pattern
